import Batchalign.Asr.Documented
import Batchalign.Asr.Ordering
import Batchalign.Library.Partition

/-!
# Chunking loses nothing

The splits of `chunking.rs` and, after them, `split_prepared_chunk_by_assignments`, which cuts
a chunk where the model that assigns words to utterances changes its mind. Every split puts
its words out in order, and none makes an empty chunk of words. An empty list or an empty
chunk, however, passes through as it is; only `finalize_words_to_chunks` drops these. That
function also rewrites the texts of some words before it splits.
-/

namespace Batchalign.Asr

section Assignments

/-- The loop over the words with their groups. -/
def splitByAssignments (speaker : ℕ) :
    ℕ → List AsrWord → List (AsrWord × ℕ) → List PreparedMonologueChunk
  | _, currentWords, [] => if currentWords.isEmpty then [] else [⟨speaker, currentWords⟩]
  | currentGroup, currentWords, (word, group) :: rest =>
      if ! currentWords.isEmpty && group != currentGroup then
        ⟨speaker, currentWords⟩ :: splitByAssignments speaker group [word] rest
      else splitByAssignments speaker currentGroup (currentWords ++ [word]) rest

def splitPreparedChunkByAssignments (chunk : PreparedMonologueChunk) (assignments : List ℕ) :
    List PreparedMonologueChunk :=
  if chunk.words.length ≤ 1 || assignments.isEmpty || assignments.length != chunk.words.length then
    [chunk]
  else
    let splitChunks :=
      splitByAssignments chunk.speaker (assignments.headD 0) [] (chunk.words.zip assignments)
    if splitChunks.isEmpty then [chunk] else splitChunks

theorem splitByAssignments_words (speaker group : ℕ) (current : List AsrWord)
    (rest : List (AsrWord × ℕ)) :
    (splitByAssignments speaker group current rest).flatMap PreparedMonologueChunk.words =
      current ++ rest.map Prod.fst := by
  induction rest generalizing group current with
  | nil =>
      rw [splitByAssignments]
      split
      · rename_i empty
        rw [List.isEmpty_iff] at empty
        simp [empty]
      · simp
  | cons pair rest ih =>
      rcases pair with ⟨word, next⟩
      rw [splitByAssignments]
      split
      · rw [List.flatMap_cons, ih]
        simp
      · rw [ih]
        simp

theorem splitByAssignments_chunk {speaker group : ℕ} {current : List AsrWord}
    {rest : List (AsrWord × ℕ)} :
    ∀ chunk ∈ splitByAssignments speaker group current rest,
      chunk.words ≠ [] ∧ chunk.speaker = speaker := by
  induction rest generalizing group current with
  | nil =>
      intro chunk member
      rw [splitByAssignments] at member
      split at member
      · cases member
      · rename_i filled
        rw [List.mem_singleton.mp member]
        exact ⟨fun empty => filled (List.isEmpty_iff.mpr empty), rfl⟩
  | cons pair rest ih =>
      rcases pair with ⟨word, next⟩
      intro chunk member
      rw [splitByAssignments] at member
      split at member
      · rename_i cut
        rcases List.mem_cons.mp member with rfl | later
        · refine ⟨fun empty => ?_, rfl⟩
          have none : current = [] := empty
          simp [none] at cut
        · exact ih chunk later
      · exact ih chunk member

theorem splitPreparedChunkByAssignments_words (chunk : PreparedMonologueChunk)
    (assignments : List ℕ) :
    (splitPreparedChunkByAssignments chunk assignments).flatMap PreparedMonologueChunk.words =
      chunk.words := by
  unfold splitPreparedChunkByAssignments
  split
  · simp
  · rename_i whole
    simp only [Bool.or_eq_true, bne_iff_ne, ne_eq, not_or, not_not] at whole
    dsimp only
    split
    · simp
    · rw [splitByAssignments_words, List.nil_append, List.map_fst_zip]
      exact whole.2.ge

/-- A chunk comes out empty only if it went in so. -/
theorem splitPreparedChunkByAssignments_chunk {chunk : PreparedMonologueChunk}
    {assignments : List ℕ} :
    ∀ part ∈ splitPreparedChunkByAssignments chunk assignments,
      (part.words = [] → chunk.words = []) ∧ part.speaker = chunk.speaker := by
  intro part member
  unfold splitPreparedChunkByAssignments at member
  split at member
  · rw [List.mem_singleton.mp member]
    exact ⟨id, rfl⟩
  · dsimp only at member
    split at member
    · rw [List.mem_singleton.mp member]
      exact ⟨id, rfl⟩
    · rcases splitByAssignments_chunk part member with ⟨filled, speaker⟩
      exact ⟨fun empty => (filled empty).elim, speaker⟩

end Assignments

section Turns

theorem chunksOf_flatten {size : ℕ} (positive : 0 < size) (words : List AsrWord) :
    (chunksOf size words).flatten = words :=
  Partition.flatten_slices_all positive words

theorem chunksOf_chunk {size : ℕ} (positive : 0 < size) {words : List AsrWord} :
    ∀ chunk ∈ chunksOf size words, chunk ≠ [] ∧ chunk.length ≤ size := by
  intro chunk member
  rcases List.mem_map.mp member with ⟨k, inRange, rfl⟩
  have below : k * size < words.length := by
    have reach := (Nat.lt_div_iff_mul_lt positive).mp (List.mem_range.mp inRange)
    have commuted := Nat.mul_comm size k
    omega
  constructor
  · intro empty
    have short := congrArg List.length empty
    rw [List.length_take, List.length_drop, List.length_nil] at short
    omega
  · rw [List.length_take]
    exact min_le_left _ _

theorem splitLongTurns_flatten (words : List AsrWord) : (splitLongTurns words).flatten = words := by
  unfold splitLongTurns
  split
  · simp
  · exact chunksOf_flatten (by decide) words

theorem splitLongTurns_chunk {words : List AsrWord} :
    ∀ turn ∈ splitLongTurns words, (turn = [] → words = []) ∧ turn.length ≤ maxTurnLen := by
  intro turn member
  unfold splitLongTurns at member
  split at member
  · rename_i short
    rw [List.mem_singleton.mp member]
    exact ⟨id, short⟩
  · rcases chunksOf_chunk (by decide) turn member with ⟨filled, short⟩
    exact ⟨fun empty => (filled empty).elim, short⟩

end Turns

section Pauses

variable [UnicodeProperties]

theorem splitAtPauses_flatten (current : List AsrWord) (previousTimed : Option AsrWord)
    (words : List AsrWord) :
    (splitAtPauses current previousTimed words).flatten = current ++ words := by
  induction words generalizing current previousTimed with
  | nil =>
      rw [splitAtPauses]
      split
      · rename_i empty
        rw [List.isEmpty_iff] at empty
        simp [empty]
      · simp
  | cons word words ih =>
      rw [splitAtPauses]
      split
      · rw [List.flatten_cons, ih, List.singleton_append]
      · rw [ih, List.append_assoc, List.singleton_append]

theorem splitAtPauses_chunk {current : List AsrWord} {previousTimed : Option AsrWord}
    {words : List AsrWord} : ∀ chunk ∈ splitAtPauses current previousTimed words, chunk ≠ [] := by
  induction words generalizing current previousTimed with
  | nil =>
      intro chunk member
      rw [splitAtPauses] at member
      split at member
      · cases member
      · rename_i filled
        rw [List.mem_singleton.mp member]
        exact fun empty => filled (List.isEmpty_iff.mpr empty)
  | cons word words ih =>
      intro chunk member
      rw [splitAtPauses] at member
      split at member
      · rename_i cut
        rcases List.mem_cons.mp member with rfl | later
        · rintro rfl
          simp at cut
        · exact ih chunk later
      · exact ih chunk member

theorem splitOnLongPauses_flatten (turns : List (List AsrWord)) :
    (splitOnLongPauses turns).flatten = turns.flatten := by
  induction turns with
  | nil => rfl
  | cons turn turns ih =>
      rw [splitOnLongPauses, List.flatMap_cons, List.flatten_append, List.flatten_cons]
      congr 1
      split
      · simp
      · rw [splitAtPauses_flatten, List.nil_append]

theorem splitOnLongPauses_empty {turns : List (List AsrWord)}
    (empty : [] ∈ splitOnLongPauses turns) : [] ∈ turns := by
  rcases List.mem_flatMap.mp empty with ⟨turn, isTurn, inside⟩
  split at inside
  · rwa [List.mem_singleton.mp inside]
  · exact (splitAtPauses_chunk _ inside rfl).elim

theorem splitOnLongPauses_chunk {turns : List (List AsrWord)} {size : ℕ}
    (short : ∀ turn ∈ turns, turn.length ≤ size) :
    ∀ chunk ∈ splitOnLongPauses turns, chunk.length ≤ size := by
  intro chunk member
  rcases splitOnLongPauses_sublist chunk member with ⟨turn, isTurn, inTurn⟩
  exact inTurn.length_le.trans (short turn isTurn)

end Pauses

section Texts

/-- The words differ in their texts at most. -/
def SameButText (word rewritten : AsrWord) : Prop :=
  rewritten = { word with text := rewritten.text }

theorem SameButText.trans {first second third : AsrWord} (left : SameButText first second)
    (right : SameButText second third) : SameButText first third := by
  unfold SameButText at *
  rw [right, left]

theorem sameButText_text (word : AsrWord) (text : String) :
    SameButText word { word with text := text } := rfl

theorem forall₂_sameButText_map {rewrite : AsrWord → AsrWord}
    (same : ∀ word, SameButText word (rewrite word)) (words : List AsrWord) :
    List.Forall₂ SameButText words (words.map rewrite) := by
  rw [List.forall₂_map_right_iff, List.forall₂_same]
  exact fun word _ => same word

variable [AsrTables] [UnicodeCase]

/-- The words as the splits of `finalize_words_to_chunks` get them. -/
def wordsToSplit (words : List AsrWord) (lang : String) : List AsrWord :=
  applyEnglishTranscribeRulesPreRetokenize
    (if lang = "yue" then normalizeCantoneseWords words else words) lang

omit [UnicodeCase] in
theorem normalizeCantoneseWords_sameButText (words : List AsrWord) :
    List.Forall₂ SameButText words (normalizeCantoneseWords words) :=
  forall₂_sameButText_map (fun word => sameButText_text word _) words

omit [AsrTables] in
theorem applyEnglishTranscribeRulesPreRetokenize_sameButText (words : List AsrWord)
    (lang : String) :
    List.Forall₂ SameButText words (applyEnglishTranscribeRulesPreRetokenize words lang) := by
  unfold applyEnglishTranscribeRulesPreRetokenize
  split
  · rw [List.forall₂_same]
    exact fun word _ => sameButText_text word _
  · rw [List.map_map]
    apply forall₂_sameButText_map
    intro word
    exact (sameButText_text word _).trans (sameButText_text _ _)

/-- Cantonese and English words are rewritten, and only in their texts. -/
theorem wordsToSplit_sameButText (words : List AsrWord) (lang : String) :
    List.Forall₂ SameButText words (wordsToSplit words lang) := by
  have english := applyEnglishTranscribeRulesPreRetokenize_sameButText
    (if lang = "yue" then normalizeCantoneseWords words else words) lang
  unfold wordsToSplit
  split at english
  · rename_i yue
    rw [if_pos yue]
    have cantonese := normalizeCantoneseWords_sameButText words
    rw [List.forall₂_iff_get] at cantonese english ⊢
    refine ⟨cantonese.1.trans english.1, fun i before after => ?_⟩
    exact (cantonese.2 i before (cantonese.1 ▸ before)).trans (english.2 i _ after)
  · rename_i other
    rw [if_neg other]
    exact english

theorem wordsToSplit_eq {words : List AsrWord} {lang : String} (notYue : lang ≠ "yue")
    (notEng : lang ≠ "eng") : wordsToSplit words lang = words := by
  simp [wordsToSplit, applyEnglishTranscribeRulesPreRetokenize, notYue, notEng]

end Texts

section Whole

variable [AsrTables] [UnicodeCase] [UnicodeProperties]

theorem finalizeWordsToChunks_words (words : List AsrWord) (speaker : ℕ) (lang : String) :
    (finalizeWordsToChunks words speaker lang).flatMap PreparedMonologueChunk.words =
      wordsToSplit words lang := by
  change ((((splitOnLongPauses (splitLongTurns (wordsToSplit words lang))).filter
    (! ·.isEmpty)).map fun words => PreparedMonologueChunk.mk speaker words).flatMap
      PreparedMonologueChunk.words) = _
  rw [List.flatMap_map]
  simp only [List.flatMap_id']
  rw [List.flatten_filter_not_isEmpty, splitOnLongPauses_flatten, splitLongTurns_flatten]

theorem finalizeWordsToChunks_chunk {words : List AsrWord} {speaker : ℕ} {lang : String} :
    ∀ chunk ∈ finalizeWordsToChunks words speaker lang,
      chunk.words ≠ [] ∧ chunk.words.length ≤ maxTurnLen ∧ chunk.speaker = speaker := by
  intro chunk member
  rcases List.mem_map.mp member with ⟨part, kept, rfl⟩
  rcases List.mem_filter.mp kept with ⟨isPart, filled⟩
  refine ⟨?_, ?_, rfl⟩
  · rintro rfl
    cases filled
  · exact splitOnLongPauses_chunk (fun turn isTurn => (splitLongTurns_chunk turn isTurn).2)
      part isPart

/-- The four splits put out the words they are given in order, `finalize_words_to_chunks` after
it has rewritten the texts of Cantonese and English words. What comes out empty was empty
before, and no chunk is longer than a turn may be. -/
theorem chunking_keeps_words (words : List AsrWord) (speaker : ℕ) (lang : String)
    (turns : List (List AsrWord)) (chunk : PreparedMonologueChunk) (assignments : List ℕ) :
    (∃ rewritten, List.Forall₂ SameButText words rewritten ∧
        (lang ≠ "yue" → lang ≠ "eng" → rewritten = words) ∧
        (finalizeWordsToChunks words speaker lang).flatMap PreparedMonologueChunk.words =
          rewritten ∧
        ∀ part ∈ finalizeWordsToChunks words speaker lang,
          part.words ≠ [] ∧ part.words.length ≤ maxTurnLen ∧ part.speaker = speaker) ∧
      ((splitLongTurns words).flatten = words ∧
        ∀ turn ∈ splitLongTurns words, (turn = [] → words = []) ∧ turn.length ≤ maxTurnLen) ∧
      ((splitOnLongPauses turns).flatten = turns.flatten ∧
        ([] ∈ splitOnLongPauses turns → [] ∈ turns)) ∧
      ((splitPreparedChunkByAssignments chunk assignments).flatMap PreparedMonologueChunk.words =
          chunk.words ∧
        ∀ part ∈ splitPreparedChunkByAssignments chunk assignments,
          (part.words = [] → chunk.words = []) ∧ part.speaker = chunk.speaker) := by
  refine ⟨⟨wordsToSplit words lang, wordsToSplit_sameButText words lang, wordsToSplit_eq,
    finalizeWordsToChunks_words words speaker lang, finalizeWordsToChunks_chunk⟩, ?_, ?_, ?_⟩
  · exact ⟨splitLongTurns_flatten words, splitLongTurns_chunk⟩
  · exact ⟨splitOnLongPauses_flatten turns, splitOnLongPauses_empty⟩
  · exact ⟨splitPreparedChunkByAssignments_words chunk assignments,
      splitPreparedChunkByAssignments_chunk⟩

end Whole

section Exceptions

open Documented Chat.Documented

/-- No words make one empty turn, and a small `i` comes out as a capital. -/
theorem chunks_empty_and_rewritten :
    [] ∈ splitLongTurns [] ∧
      (finalizeWordsToChunks [AsrWord.new "i" none none] 0 "eng").flatMap
        PreparedMonologueChunk.words = [AsrWord.new "I" none none] :=
  ⟨by decide, by decide +kernel⟩

end Exceptions

end Batchalign.Asr
