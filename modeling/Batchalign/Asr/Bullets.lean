import Batchalign.Asr.Blocks
import Batchalign.Asr.Ordering

/-!
# The time marks of a transcript

The builder marks an utterance with the start of its first and the end of its last timed word.
The words of an utterance have times in order, so no mark is reversed and the mark of an
utterance contains those of its words; what is left is that a mark is empty, which happens
exactly when a splitter has given a word no time.
-/

namespace Batchalign.Asr

open Batchalign.Chat Batchalign.Runners Fallible Intervals

section Marks

mutual

def contentWords : UtteranceContent → List Word
  | .word word => [word]
  | .replacedWord word replacement => word :: replacement
  | .group content => mainWords content
  | .retrace content => mainWords content
  | .separator _ => []
  | .other _ => []

/-- The words of a main tier. -/
def mainWords : List UtteranceContent → List Word
  | [] => []
  | item :: items => contentWords item ++ mainWords items

end

def Forward (bullet : Bullet) : Prop := bullet.timing.startMs < bullet.timing.endMs

instance (bullet : Bullet) : Decidable (Forward bullet) := inferInstanceAs (Decidable (_ < _))

def Contains (outer inner : Bullet) : Prop :=
  outer.timing.startMs ≤ inner.timing.startMs ∧ inner.timing.endMs ≤ outer.timing.endMs

instance (outer inner : Bullet) : Decidable (Contains outer inner) :=
  inferInstanceAs (Decidable (_ ∧ _))

def mainBullets (utt : Chat.Utterance) : List Bullet :=
  (mainWords utt.items).filterMap Word.inlineBullet

def worBullets (utt : Chat.Utterance) : List Bullet :=
  ((utt.dependentTiers.filterMap DependentTier.wor?).flatMap WorTier.words).filterMap
    Word.inlineBullet

/-- No mark of the utterance is empty or reversed, and its own contains those of its words. -/
structure WellTimed (utt : Chat.Utterance) : Prop where
  utterance : ∀ bullet ∈ utt.bullet, Forward bullet
  main : ∀ bullet ∈ mainBullets utt, Forward bullet
  wor : ∀ bullet ∈ worBullets utt, Forward bullet
  contains : ∀ bullet ∈ mainBullets utt ++ worBullets utt, ∃ outer ∈ utt.bullet,
    Contains outer bullet

def span (bullet : Bullet) : ℕ × ℕ := (bullet.timing.startMs, bullet.timing.endMs)

theorem mem_mainBullets {utt : Chat.Utterance} {bullet : Bullet} :
    bullet ∈ mainBullets utt ↔ ∃ word ∈ mainWords utt.items, word.inlineBullet = some bullet :=
  List.mem_filterMap

theorem exists_ends {α : Type} {xs : List α} (nonempty : xs ≠ []) :
    ∃ first last, xs.head? = some first ∧ xs.getLast? = some last :=
  ⟨xs.head nonempty, xs.getLast nonempty, List.head?_eq_some_head nonempty,
    List.getLast?_eq_some_getLast nonempty⟩

theorem mapped_head {bullets : List Bullet} {first : Bullet}
    (isFirst : bullets.head? = some first) :
    (bullets.map span).head? = some (span first) := by
  rw [List.head?_map, isFirst]
  rfl

theorem mapped_last {bullets : List Bullet} {last : Bullet}
    (isLast : bullets.getLast? = some last) :
    (bullets.map span).getLast? = some (span last) := by
  rw [List.getLast?_map, isLast]
  rfl

theorem mainWords_words (words : List Word) :
    mainWords (words.map .word) = words := by
  induction words with
  | nil => rfl
  | cons word words ih =>
      rw [List.map_cons, mainWords, ih]
      rfl

end Marks

section Times

variable [ChatGrammar]

/-- The bullets that the words with both times get. -/
def WordDesc.bullet? (desc : WordDesc) : Option Bullet :=
  match desc.startMs, desc.endMs with
  | some start, some stop => some (Bullet.new start stop)
  | _, _ => none

def descBullets (descs : List WordDesc) : List Bullet := descs.filterMap WordDesc.bullet?

/-- A fragment has no mark of its own. -/
def UnmarkedFragments : Prop :=
  ∀ text word errors, ChatGrammar.parseWordFragment text = (some word, errors) →
    word.inlineBullet = none

theorem timedWord_bullet (unmarked : UnmarkedFragments) (desc : WordDesc) :
    (timedWord desc).inlineBullet = desc.bullet? := by
  have parsed (text : String) : (parseAsrWord text).inlineBullet = none := by
    unfold parseAsrWord
    cases fragment : ChatGrammar.parseWordFragment text with
    | mk word errors =>
        cases word with
        | none => rfl
        | some word => exact unmarked text word errors fragment
  unfold timedWord WordDesc.bullet?
  cases desc.startMs with
  | none => exact parsed _
  | some start =>
      cases desc.endMs with
      | none => exact parsed _
      | some stop => rfl

theorem mainWords_blocks (blocks : List Block) :
    mainWords (blocks.map Block.content) = (blocks.flatMap Block.words).map timedWord := by
  induction blocks with
  | nil => rfl
  | cons block blocks ih =>
      have one : contentWords block.content = block.words.map timedWord := by
        cases block with
        | word desc => rfl
        | separator text => rfl
        | retrace descs =>
            have items : descs.map (fun desc => UtteranceContent.word (timedWord desc)) =
                (descs.map timedWord).map .word := by
              rw [List.map_map]
              rfl
            rw [Block.content, contentWords, items, mainWords_words]
            rfl
      rw [List.map_cons, mainWords, List.flatMap_cons, List.map_append, ih, one]

/-- The first start, the last end, and whether there is any. -/
theorem timeWords_times (words : List WordDesc) (state : BuildState) :
    (timeWords words state).uttStartMs =
        state.uttStartMs.or ((descBullets words).head?.map fun bullet => bullet.timing.startMs) ∧
      (timeWords words state).uttEndMs =
        ((descBullets words).getLast?.map fun bullet => bullet.timing.endMs).or state.uttEndMs ∧
      (timeWords words state).hasTiming = (state.hasTiming || ! (descBullets words).isEmpty) := by
  induction words generalizing state with
  | nil =>
      refine ⟨?_, rfl, ?_⟩
      · exact Option.or_none.symm
      · exact (Bool.or_false _).symm
  | cons word words ih =>
      rcases ih (parseAndTimeWord word state).2 with ⟨start, stop, timed⟩
      change (timeWords words (parseAndTimeWord word state).2).uttStartMs = _ ∧
        (timeWords words (parseAndTimeWord word state).2).uttEndMs = _ ∧
        (timeWords words (parseAndTimeWord word state).2).hasTiming = _
      rw [start, stop, timed]
      have cases_ : (descBullets (word :: words) = descBullets words ∧
          (parseAndTimeWord word state).2 = state) ∨
          ∃ first last, descBullets (word :: words) = Bullet.new first last :: descBullets words ∧
            (parseAndTimeWord word state).2 = { state with
              uttStartMs := some (state.uttStartMs.getD first), uttEndMs := some last,
              hasTiming := true } := by
        unfold descBullets parseAndTimeWord
        cases isStart : word.startMs with
        | none =>
            left
            exact ⟨List.filterMap_cons_none (by rw [WordDesc.bullet?, isStart]), rfl⟩
        | some first =>
            cases isStop : word.endMs with
            | none =>
                left
                exact ⟨List.filterMap_cons_none (by rw [WordDesc.bullet?, isStart, isStop]), rfl⟩
            | some last =>
                right
                exact ⟨first, last,
                  List.filterMap_cons_some (by rw [WordDesc.bullet?, isStart, isStop]), rfl⟩
      rcases cases_ with ⟨bullets, same⟩ | ⟨first, last, bullets, changed⟩
      · rw [bullets, same]
        exact ⟨rfl, rfl, rfl⟩
      · rw [bullets, changed]
        refine ⟨?_, ?_, ?_⟩
        · cases state.uttStartMs <;> rfl
        · rw [List.getLast?_cons]
          cases (descBullets words).getLast? <;> rfl
        · simp

end Times

section Utterance

variable [ChatGrammar]

/-- The words that are shown. -/
def shownDescs (descs : List WordDesc) : List WordDesc :=
  (bracketed 0 descs).flatMap Block.words

theorem bracketed_words_sublist (skip : ℕ) (descs : List WordDesc) :
    ((bracketed skip descs).flatMap Block.words).Sublist (descs.drop skip) := by
  induction descs generalizing skip with
  | nil => cases skip <;> exact List.Sublist.refl _
  | cons desc descs ih =>
      cases skip with
      | succ skip => exact ih skip
      | zero =>
          rw [bracketed, List.drop_zero]
          split
          · exact (ih 0).cons desc
          · split
            · exact (ih 0).cons desc
            · dsimp only
              split
              · rw [List.flatMap_append, bracketRun_words]
                have later := ih (descs.takeWhile WordDesc.isRetrace).length
                rw [drop_run] at later
                have whole := List.Sublist.append (List.filter_sublist (p := (! isBlank ·))
                  (l := desc :: descs.takeWhile WordDesc.isRetrace)) later
                rwa [List.cons_append, List.takeWhile_append_dropWhile] at whole
              · exact (ih 0).cons_cons desc

variable [WorGenerator]

/-- The marks of a `%wor` tier are those of words of the main tier. -/
def WorMarksFromMain : Prop :=
  ∀ main, ∀ word ∈ (WorGenerator.generateWorTier main).words, ∀ bullet ∈ word.inlineBullet,
    ∃ source ∈ mainWords main.content.content, source.inlineBullet = some bullet

/-- The utterance has the marks of its shown words, in order, and one from the first to the
last. -/
theorem buildWordUtterance_marks (unmarked : UnmarkedFragments) (fromMain : WorMarksFromMain)
    {speaker : String} {descs : List WordDesc} {writeWor : Bool} {utt : Chat.Utterance}
    (built : buildWordUtterance speaker descs writeWor none none = some utt) :
    mainBullets utt = descBullets (shownDescs descs) ∧
      (∀ bullet ∈ worBullets utt, bullet ∈ mainBullets utt) ∧
      utt.bullet = (do
        let first ← (descBullets (shownDescs descs)).head?
        let last ← (descBullets (shownDescs descs)).getLast?
        return Bullet.new first.timing.startMs last.timing.endMs) := by
  unfold buildWordUtterance at built
  dsimp only at built
  split at built
  · cases built
  · rw [pushWords_eq] at built
    rcases timeWords_times (shownDescs descs) .initial with ⟨isStart, isStop, isTimed⟩
    have items : utt.items = (bracketed 0 descs).map Block.content := by
      cases built
      rfl
    have bullets : mainBullets utt = descBullets (shownDescs descs) := by
      rw [mainBullets, items, mainWords_blocks, List.filterMap_map]
      apply List.filterMap_congr
      intro desc _
      exact timedWord_bullet unmarked desc
    refine ⟨bullets, ?_, ?_⟩
    · intro bullet member
      rcases List.mem_filterMap.mp member with ⟨word, isWord, marked⟩
      rcases List.mem_flatMap.mp isWord with ⟨tier, isTier, inTier⟩
      rcases List.mem_filterMap.mp isTier with ⟨dependent, isDependent, isWor⟩
      have generated : dependent = .wor (WorGenerator.generateWorTier utt.main) := by
        cases built
        dsimp only at isDependent
        split at isDependent
        · exact List.mem_singleton.mp isDependent
        · cases isDependent
      rw [generated] at isWor
      cases isWor
      exact mem_mainBullets.mpr (fromMain utt.main word inTier bullet marked)
    · cases built
      change (match (timeWords (shownDescs descs) .initial).uttStartMs.or none,
        (timeWords (shownDescs descs) .initial).uttEndMs.or none with
        | some start, some stop => some (Bullet.new start stop)
        | _, _ => none) = _
      rw [isStart, isStop]
      cases (descBullets (shownDescs descs)).head? with
      | none => rfl
      | some first =>
          cases (descBullets (shownDescs descs)).getLast? <;> rfl

theorem buildWordUtterance_wellTimed_iff (unmarked : UnmarkedFragments)
    (fromMain : WorMarksFromMain) {speaker : String} {descs : List WordDesc} {writeWor : Bool}
    {utt : Chat.Utterance} (inOrder : InOrder ((descBullets descs).map span))
    (built : buildWordUtterance speaker descs writeWor none none = some utt) :
    WellTimed utt ↔ ∀ bullet ∈ descBullets (shownDescs descs), Forward bullet := by
  rcases buildWordUtterance_marks unmarked fromMain built with ⟨main, wor, isBullet⟩
  constructor
  · intro timed bullet member
    exact timed.main bullet (main.symm ▸ member)
  · intro forward
    have shown : InOrder ((descBullets (shownDescs descs)).map span) :=
      inOrder.sublist (((bracketed_words_sublist 0 descs).filterMap _).map _)
    have inside : ∀ bullet ∈ mainBullets utt, ∃ outer ∈ utt.bullet, Contains outer bullet := by
      intro bullet member
      rw [main] at member
      rcases exists_ends (List.ne_nil_of_mem member) with ⟨first, last, isFirst, isLast⟩
      have hull := shown.hull (mapped_head isFirst) (mapped_last isLast) (span bullet)
        (List.mem_map_of_mem member)
      rw [isBullet, isFirst, isLast]
      exact ⟨_, rfl, hull⟩
    have outer : ∀ bullet ∈ utt.bullet, Forward bullet := by
      intro bullet isOuter
      rw [isBullet] at isOuter
      rcases List.eq_nil_or_concat (descBullets (shownDescs descs)) with empty | ⟨_, _, isList⟩
      · rw [empty] at isOuter
        cases isOuter
      · have nonempty : descBullets (shownDescs descs) ≠ [] := by simp [isList]
        rcases exists_ends nonempty with ⟨first, last, isFirst, isLast⟩
        rw [isFirst, isLast] at isOuter
        cases isOuter
        have member := List.mem_of_mem_head? isFirst
        have hull := shown.hull (mapped_head isFirst) (mapped_last isLast) (span first)
          (List.mem_map_of_mem member)
        exact Nat.lt_of_lt_of_le (forward first member) hull.2
    refine ⟨outer, ?_, ?_, ?_⟩
    · intro bullet member
      exact forward bullet (main ▸ member)
    · intro bullet member
      exact forward bullet (main ▸ wor bullet member)
    · intro bullet member
      rcases List.mem_append.mp member with isMain | isWor
      · exact inside bullet isMain
      · exact inside bullet (wor bullet isWor)

theorem shownDescs_of_unbuilt {speaker : String} {descs : List WordDesc} {writeWor : Bool}
    {startMs endMs : Option ℕ}
    (unbuilt : buildWordUtterance speaker descs writeWor startMs endMs = none) :
    shownDescs descs = [] := by
  unfold buildWordUtterance at unbuilt
  dsimp only at unbuilt
  split at unbuilt
  · rename_i empty
    rw [pushWords_eq] at empty
    have none_ : bracketed 0 descs = [] := by simpa [BuildState.initial] using empty
    rw [shownDescs, none_]
    rfl
  · cases unbuilt

end Utterance

section Casts

theorem asU64_of_isTime {value : ℤ} (time : IsTime value) : (asU64 value : ℤ) = value :=
  asU64_of_nonneg time.1 (by unfold IsTime at time; omega)

theorem asU64_monotoneOn : MonotoneOn asU64 (Set.Icc 0 9223372036854775807) := by
  intro left leftTime right rightTime le
  have first := asU64_of_isTime leftTime
  have second := asU64_of_isTime rightTime
  omega

end Casts

section Documents

variable [ChatBuilder]

theorem applyUtteranceLanguageOverride_wellTimed {utt changed : Chat.Utterance}
    {lang : Option String} {primary : String}
    (applied : applyUtteranceLanguageOverride utt lang primary = .ok changed) :
    WellTimed changed ↔ WellTimed utt := by
  unfold applyUtteranceLanguageOverride at applied
  split at applied
  · split at applied
    · cases applied
      rfl
    · rcases bind_eq_ok_iff.mp applied with ⟨code, _, applied⟩
      cases applied
      constructor
      · intro timed
        exact ⟨timed.utterance, timed.main, timed.wor, timed.contains⟩
      · intro timed
        exact ⟨timed.utterance, timed.main, timed.wor, timed.contains⟩
  · cases applied
    rfl

variable [ChatGrammar]

/-- The description has its marks from its words only. -/
def MarkedByWords (desc : UtteranceDesc) : Prop :=
  desc.text = none ∧ desc.startMs = none ∧ desc.endMs = none

theorem describeUtterance_markedByWords {participantIds : List String} {primary : String}
    {utterance : Utterance} {uttIdx : ℕ} {desc : UtteranceDesc}
    (described : describeUtterance participantIds primary utterance uttIdx = .ok desc) :
    MarkedByWords desc := by
  rcases bind_eq_ok_iff.mp described with ⟨uttLang, _, described⟩
  rcases bind_eq_ok_iff.mp described with ⟨descs, _, described⟩
  cases described
  exact ⟨rfl, rfl, rfl⟩

/-- The marks are the times of the words, cast. -/
theorem describeUtterance_bullets {participantIds : List String} {primary : String}
    {utterance : Utterance} {uttIdx : ℕ} {desc : UtteranceDesc}
    (described : describeUtterance participantIds primary utterance uttIdx = .ok desc) :
    (descBullets (desc.words.getD [])).map span =
      (timings utterance.words).map (Prod.map asU64 asU64) := by
  have kept := congrArg
    (List.filterMap fun item : String × Option ℕ × Option ℕ × WordKind =>
      match item.2.1, item.2.2.1 with
      | some start, some stop => some (start, stop)
      | _, _ => none) (describeUtterance_words described)
  rw [List.filterMap_map, List.filterMap_map] at kept
  rw [descBullets, List.map_filterMap, timings, List.map_filterMap]
  have left : ∀ desc : WordDesc, desc.bullet?.map span =
      match desc.startMs, desc.endMs with
      | some start, some stop => some (start, stop)
      | _, _ => none := by
    intro desc
    unfold WordDesc.bullet?
    cases desc.startMs with
    | none => rfl
    | some start => cases desc.endMs <;> rfl
  have right : ∀ word : AsrWord, word.timing?.map (Prod.map asU64 asU64) =
      match word.startMs.map asU64, word.endMs.map asU64 with
      | some start, some stop => some (start, stop)
      | _, _ => none := by
    intro word
    unfold AsrWord.timing?
    cases word.startMs with
    | none => rfl
    | some start => cases word.endMs <;> rfl
  simp only [left, right]
  exact kept

theorem buildDescHeaderLines_utterances {desc : TranscriptDescription} {langs : List String}
    {headers : List Line} (ok : buildDescHeaderLines desc langs = .ok headers) :
    headers.filterMap Line.utterance? = [] := by
  rcases bind_eq_ok_iff.mp ok with ⟨codes, _, ok⟩
  rcases bind_eq_ok_iff.mp ok with ⟨media, isMedia, ok⟩
  have mediaHeaders : media.filterMap Line.utterance? = [] := by
    unfold buildMediaHeader at isMedia
    split at isMedia
    · cases isMedia
      rfl
    · rcases bind_eq_ok_iff.mp isMedia with ⟨fileName, _, isMedia⟩
      cases isMedia
      rfl
  cases ok
  rw [List.filterMap_append, List.filterMap_append, mediaHeaders, List.append_nil,
    List.append_eq_nil_iff]
  refine ⟨rfl, ?_⟩
  rw [List.filterMap_map]
  exact List.filterMap_eq_nil_iff.mpr fun _ _ => rfl

end Documents

section Pieces

variable [ChatGrammar] [ChatBuilder] [AsrTables] [Float64] [UnicodeCase] [UnicodeProperties]

/-- The words prepared from every monologue have a length. -/
def NoEmptyPiece (output : AsrOutput) (lang : String) : Prop :=
  ∀ monologue ∈ output.monologues,
    ∀ interval ∈ timings (preparedWords monologue.elements lang), interval.1 < interval.2

/-- The marks of a described utterance are in order, and have a length where its words do. -/
theorem described_marks (rounds : RoundsInOrder) {output : AsrOutput} {lang : String}
    (ordered : ∀ monologue ∈ output.monologues, OrderedElements monologue.elements)
    (fits : ∀ monologue ∈ output.monologues, ElementsFit monologue.elements lang)
    {utterance : Utterance} (isUtterance : utterance ∈ processRawAsr output lang)
    {participantIds : List String} {primary : String} {uttIdx : ℕ} {desc : UtteranceDesc}
    (described : describeUtterance participantIds primary utterance uttIdx = .ok desc) :
    InOrder ((descBullets (desc.words.getD [])).map span) ∧
      (NoEmptyPiece output lang → ∀ bullet ∈ descBullets (desc.words.getD []), Forward bullet) := by
  rcases processRawAsr_timings utterance isUtterance with ⟨monologue, isMonologue, kept⟩
  have placed : Placed utterance.words :=
    (preparedWords_placed rounds (ordered monologue isMonologue)
      (fits monologue isMonologue)).sublist kept
  have marks := describeUtterance_bullets described
  refine ⟨marks ▸ placed.map asU64_monotoneOn, ?_⟩
  intro pieces bullet member
  have isMark : span bullet ∈ (timings utterance.words).map (Prod.map asU64 asU64) :=
    marks ▸ List.mem_map_of_mem member
  rcases List.mem_map.mp isMark with ⟨interval, inside, same⟩
  have forward := pieces monologue isMonologue interval (kept.subset inside)
  have lower := placed.above interval inside
  have upper := placed.below interval inside
  have isTimes : IsTime interval.1 ∧ IsTime interval.2 :=
    ⟨⟨lower, by omega⟩, ⟨by omega, upper⟩⟩
  have start := asU64_of_isTime isTimes.1
  have stop := asU64_of_isTime isTimes.2
  have isStart : asU64 interval.1 = bullet.timing.startMs := congrArg Prod.fst same
  have isStop : asU64 interval.2 = bullet.timing.endMs := congrArg Prod.snd same
  rw [Forward, ← isStart, ← isStop]
  omega

end Pieces

section Lines

variable [ChatGrammar] [ChatBuilder] [WorGenerator]

/-- The line of an utterance is well timed exactly when no shown word has an empty mark. -/
theorem buildUtteranceLine_wellTimed_iff (unmarked : UnmarkedFragments)
    (fromMain : WorMarksFromMain) {desc : TranscriptDescription} {langs : List String}
    {primary : String} {utterance : UtteranceDesc} {line : Option Line}
    (byWords : MarkedByWords utterance)
    (inOrder : InOrder ((descBullets (utterance.words.getD [])).map span))
    (ok : buildUtteranceLine desc langs primary utterance = .ok line) :
    (∀ utt ∈ line.bind Line.utterance?, WellTimed utt) ↔
      ∀ bullet ∈ descBullets (shownDescs (utterance.words.getD [])), Forward bullet := by
  unfold buildUtteranceLine at ok
  rcases byWords with ⟨noText, noStart, noEnd⟩
  cases words : utterance.words.getD [] with
  | nil =>
      rw [words, noText] at ok
      cases ok
      simp [shownDescs, bracketed, descBullets]
  | cons first rest =>
      rw [words, noStart, noEnd] at ok
      rw [words] at inOrder
      dsimp only at ok
      cases built :
          buildWordUtterance utterance.speaker (first :: rest) desc.writeWor none none with
      | none =>
          rw [built] at ok
          cases ok
          rw [shownDescs_of_unbuilt built]
          simp [descBullets]
      | some utt =>
          rw [built] at ok
          rcases bind_eq_ok_iff.mp ok with ⟨changed, applied, ok⟩
          cases ok
          rw [← buildWordUtterance_wellTimed_iff unmarked fromMain inOrder built,
            ← applyUtteranceLanguageOverride_wellTimed applied]
          simp [Line.utterance?]

/-- The utterances of the document are those of the lines built. -/
theorem buildChatFromDesc_lines {desc : TranscriptDescription} {doc : ChatFile}
    (built : buildChatFromDesc desc = .ok doc) :
    ∃ langs primary lines,
      desc.utterances.mapM (buildUtteranceLine desc langs primary) = .ok lines ∧
        doc.utterances = lines.filterMap (·.bind Line.utterance?) := by
  unfold buildChatFromDesc at built
  dsimp only at built
  split at built
  · cases built
  · rcases bind_eq_ok_iff.mp built with ⟨headers, isHeaders, built⟩
    rcases bind_eq_ok_iff.mp built with ⟨lines, isLines, built⟩
    rcases bind_eq_ok_iff.mp built with ⟨lang, _, built⟩
    cases built
    refine ⟨_, _, lines, isLines, ?_⟩
    rw [ChatFile.utterances, List.filterMap_append, List.filterMap_append,
      buildDescHeaderLines_utterances isHeaders, List.reduceOption, List.filterMap_filterMap]
    simp [Line.utterance?]

/-- No word that is shown has lost its length. -/
def NoEmptyWord (transcript : TranscriptDescription) : Prop :=
  ∀ desc ∈ transcript.utterances,
    ∀ bullet ∈ descBullets (shownDescs (desc.words.getD [])), Forward bullet

variable [AsrTables] [Float64] [UnicodeCase] [UnicodeProperties]

end Lines

section Samples

open Documented Chat.Documented

theorem exactRounds : RoundsInOrder where
  monotone := monotone_id
  zero := rfl

theorem plainGrammar_unmarked : UnmarkedFragments := by
  intro text word errors parsed
  change parseFragment text = _ at parsed
  unfold parseFragment at parsed
  split at parsed
  · split at parsed <;> cases parsed
    rfl
  · split at parsed <;> cases parsed
    rfl

def itemWords : WordItem → List Word
  | .word word => [word]
  | .replacedWord word replacement => word :: replacement
  | .separator _ => []

mutual

theorem walkItem_words (domain : Option TierDomain) (item : UtteranceContent) :
    ∀ found ∈ walkItem domain item, ∀ word ∈ itemWords found, word ∈ contentWords item := by
  cases item with
  | word word =>
      intro found member
      rw [walkItem, List.mem_singleton] at member
      subst member
      exact fun word inside => inside
  | replacedWord word replacement =>
      intro found member
      rw [walkItem, List.mem_singleton] at member
      subst member
      exact fun word inside => inside
  | group content => exact walkItems_words domain content
  | retrace content =>
      intro found member
      rw [walkItem] at member
      split at member
      · cases member
      · exact walkItems_words domain content found member
  | separator text =>
      intro found member
      rw [walkItem, List.mem_singleton] at member
      subst member
      exact fun word inside => inside
  | other text =>
      intro found member
      rw [walkItem] at member
      cases member

theorem walkItems_words (domain : Option TierDomain) (items : List UtteranceContent) :
    ∀ found ∈ walkItems domain items, ∀ word ∈ itemWords found, word ∈ mainWords items := by
  cases items with
  | nil =>
      intro found member
      rw [walkItems] at member
      cases member
  | cons item items =>
      intro found member word inside
      rw [walkItems] at member
      rw [mainWords]
      rcases List.mem_append.mp member with first | later
      · exact List.mem_append_left _ (walkItem_words domain item found first word inside)
      · exact List.mem_append_right _ (walkItems_words domain items found later word inside)

end

theorem worWords_fromMain : WorMarksFromMain := by
  intro main word member bullet marked
  rcases List.mem_filterMap.mp member with ⟨item, isItem, isWord⟩
  rcases List.mem_filterMap.mp isItem with ⟨found, isFound, kept⟩
  have inside : word ∈ itemWords found := by
    cases found with
    | word other =>
        dsimp only at kept
        split at kept
        · cases kept
          cases isWord
          exact List.mem_cons_self
        · cases kept
    | replacedWord other replacement =>
        dsimp only at kept
        split at kept
        · cases kept
          cases isWord
          exact List.mem_cons_self
        · cases kept
    | separator text => cases kept
  exact ⟨word, walkItems_words _ _ found isFound word inside, marked⟩

def timedElement (value : String) (start stop : ℚ) : AsrElement where
  value := value
  ts := some start
  endTs := some stop
  kind := .text

/-- Two sentences in one millisecond. -/
def hastySpeech : AsrOutput where
  monologues := [⟨0, [timedElement "so. go" 1 (1001 / 1000)]⟩]

def calmSpeech : AsrOutput where
  monologues := [⟨0, [timedElement "so. go" 1 (3 / 2), timedElement "on" (3 / 2) 2]⟩]

end Samples

end Batchalign.Asr
