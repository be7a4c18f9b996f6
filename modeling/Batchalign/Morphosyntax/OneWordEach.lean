import Batchalign.Morphosyntax.GroupCounts
import Batchalign.Morphosyntax.Repairs
import Batchalign.Morphosyntax.TokenCounts
import Batchalign.Morphosyntax.WellFormed

/-!
# One group for each word

The postprocessor splits the words of a line into tokens by its own rules, and the renderer joins
them by others. The groups come out one for each word of the line exactly if the joins can be made
and as many tokens are joined to others as there are more of them than words. No pass leaves a head
that is no word, so nothing else stands in the way of a sentence with one root whose words have
units. Two words are lost to each other where a rule takes them for the halves of one, as in
Italian `le i`.
-/

namespace Batchalign.Morphosyntax

open Fallible PythonText Numbering
open Batchalign.Alignment (Similarity)

section Heads

/-- Every head is 0 or the id of a word. -/
def Attached (words : List NormalizedWord) : Prop :=
  ∀ word ∈ words, word.head = 0 ∨ word.head ∈ words.map (·.id)

variable [PythonText] {words : List NormalizedWord} {tokens : List Token}

theorem normalizeWords_attached {rawWords : List StanzaWord}
    (ids : rawWords.map (·.id) = (List.range' 1 rawWords.length).map some) :
    Attached (normalizeWords rawWords).1 := by
  intro word isWord
  rw [normalizeWords_ids ids, List.mem_range'_1]
  rcases List.mem_map.mp isWord with ⟨repaired, isRepaired, rfl⟩
  rcases List.mem_map.mp isRepaired with ⟨item, _, rfl⟩
  have inRange : (normalizeWord rawWords.length (normalizedRootId rawWords) item.2 item.1).1.head ≤
      rawWords.length := repairHead_le (normalizedRootId_le rawWords)
  dsimp only
  omega

theorem applyEnglishCopulaProgressive_attached (attached : Attached words) :
    Attached (applyEnglishCopulaProgressive words tokens).1 := by
  rcases applyEnglishCopulaProgressive_cases words tokens with
    same | ⟨part, possessor, verb, oldRoot, rescues⟩
  · rw [same]
    exact attached
  · have isVerb : verb ∈ words := by
      have member : verb ∈ ingNouns words := rescues.isVerb ▸ List.mem_singleton_self verb
      exact List.mem_of_mem_filter member
    intro word isWord
    rw [applyEnglishCopulaProgressive_ids]
    rw [rescues.result] at isWord
    rcases List.mem_map.mp isWord with ⟨old, isOld, rfl⟩
    rcases rescueProgressive_head part possessor verb oldRoot old with
      ⟨head, _⟩ | ⟨_, _, _, head, _⟩ | ⟨_, _, head⟩
    · rw [head]
      exact Or.inr (List.mem_map_of_mem isVerb)
    · exact Or.inl head
    · rw [head]
      exact attached old isOld

/-- No pass leaves a head that is no word. -/
theorem rewriteSentence_attached (numbered : Numbered words tokens) (attached : Attached words)
    (lang : String) (authoritativeWords : List String) :
    Attached (rewriteSentence lang (some authoritativeWords) words tokens).words := by
  unfold rewriteSentence
  split
  · have grouped : Numbered words (groupItalianElisionTokens tokens authoritativeWords) :=
      ⟨numbered.counted, (groupItalianElisionTokens_ids _ _).trans numbered.spans⟩
    set compound := normalizeItalianCompoundImperatives words
      (groupItalianElisionTokens tokens authoritativeWords) with isCompound
    set legacy := normalizeItalianLegacyMwts compound.words compound.tokens with isLegacy
    have compoundNumbered : Numbered compound.words compound.tokens :=
      normalizeItalianCompoundImperatives_numbered grouped
    have legacyNumbered : Numbered legacy.words legacy.tokens :=
      normalizeItalianLegacyMwts_numbered compoundNumbered
    have componentsNumbered :=
      legacyNumbered.of_ids (normalizeItalianMwtComponents_ids legacy.words legacy.tokens)
    rcases normalizeItalianCompoundImperatives_contraction grouped with ⟨_, first⟩
    rcases normalizeItalianLegacyMwts_contraction compoundNumbered with ⟨_, second⟩
    have third := normalizeItalianMwtComponents_contraction legacy.words legacy.tokens
    rcases normalizeItalianFalseMwts_contraction componentsNumbered with ⟨_, last⟩
    exact last.attached (third.attached (second.attached (first.attached attached)))
  · split
    · exact applyEnglishCopulaProgressive_attached attached
    · exact attached

variable [MorHandlers] {lang : String} {root : ℕ} {state : LoopState}

theorem Rounds.hasUnit_of_analysed (rounds : Rounds lang root words state)
    (all : ∀ analysis ∈ state.analyses, analysis.isSome = true) :
    ∀ word ∈ words, hasUnit lang word = true := by
  intro word isWord
  have listed := List.mem_map_of_mem (f := hasUnit lang) isWord
  rw [← rounds.analyses] at listed
  rcases List.mem_map.mp listed with ⟨analysis, isAnalysis, same⟩
  rw [← same, all analysis isAnalysis]

/-- Each relation of the loop is the one of a word. -/
theorem Rounds.graTmp_head (rounds : Rounds lang root words state) {relation : ℕ × ℕ × String}
    (member : relation ∈ state.graTmp) : ∃ word ∈ words, relation.2.1 = word.head := by
  have nodup : (state.graTmp.map Prod.fst).Nodup := by
    rw [rounds.indices]
    exact List.nodup_range'
  have index : relation.1 ∈ (Numbering.positions (hasUnit lang) words).map
      (number (hasUnit lang) words) := by
    rw [map_number_positions, ← rounds.indices]
    exact List.mem_map_of_mem member
  rcases List.mem_map.mp index with ⟨place, isPlace, same⟩
  rcases mem_positions.mp isPlace with ⟨word, here, kept⟩
  have own := rounds.relations place word here kept
  have equal := List.inj_on_of_nodup_map nodup own member same
  exact ⟨word, List.mem_of_getElem? here, congrArg (·.2.1) equal.symm⟩

/-- The head of every relation is found. -/
theorem Rounds.chunkGra_exists (rounds : Rounds lang root words state)
    (numbered : Numbered words tokens) (attached : Attached words) :
    ∃ relations, chunkGra state = .ok relations := by
  have resolves : ∃ resolved, state.graTmp.mapM (resolveRelation state) = .ok resolved := by
    rw [exists_mapM_ok_iff]
    rintro ⟨index, rawHead, deprel⟩ member
    rcases rounds.graTmp_head member with ⟨word, isWord, head⟩
    dsimp only at head
    by_cases zero : rawHead = 0
    · unfold resolveRelation
      dsimp only
      rw [if_pos zero]
      exact ⟨_, rfl⟩
    · have isId := (attached word isWord).resolve_left (head ▸ zero)
      rw [numbered.counted, List.mem_range'_1, List.length_map, ← head] at isId
      have length : state.actualIndicies.length = words.length := by
        rw [rounds.actual, List.length_map, List.length_range]
      have cast : (rawHead : ℤ) - 1 = ((rawHead - 1 : ℕ) : ℤ) := by omega
      have found : pyGet state.actualIndicies ((rawHead : ℤ) - 1) =
          .ok state.actualIndicies[rawHead - 1] := by
        rw [cast, pyGet_natCast]
        exact List.getElem?_eq_getElem (by omega)
      unfold resolveRelation
      dsimp only
      rw [if_neg zero, found]
      exact ⟨_, rfl⟩
  rcases resolves with ⟨resolved, isResolved⟩
  exact ⟨_, bind_eq_ok_iff.mpr ⟨resolved, isResolved, rfl⟩⟩

end Heads

section Line

variable [PythonText] [MorHandlers]

/-- The loop over the words comes to its end, and every word has got a unit. -/
def YieldsUnits (lang : String) (specialForms : List (String × String))
    (words : List NormalizedWord) : Prop :=
  ∃ state, words.zipIdx.foldlM (wordStep lang) (LoopState.initial specialForms) = .ok state ∧
    ∀ analysis ∈ state.analyses, analysis.isSome = true

/-- The groups go over the units in their order, and there is one group for each word of the
line. -/
def OneWordEach (sentence : StanzaSentence) (specialForms : List (String × String))
    (lang line : String) : Prop :=
  ∃ analysis,
    parseSentence sentence specialForms lang (some (splitAt ' ' line)) = .ok analysis ∧
      (analysis.words.flatMap (·.units)).map (·.index) =
        List.range' 1 (rewrittenOf sentence lang (some (splitAt ' ' line))).words.length ∧
      analysis.words.length = (splitAt ' ' line).length

/-- How many tokens are rendered: the words of the line where the Italian tokens fit them, or else
those that the postprocessor has made. -/
def renderedCount (langs : List String) (lang : String) (passage : Passage)
    (tokens : List Token) : ℕ :=
  if lang = "it" ∧ (elisionGroups (splitAt ' ' passage.sent) tokens).isSome = true then
    (splitAt ' ' passage.sent).length
  else tokenCount langs passage

/-- The renderer joins as many tokens to others as there are more of them than words. It goes by
the first of the languages that the postprocessor is given. -/
structure Rejoined (langs : List String) (lang : String) (passage : Passage)
    (sentence : StanzaSentence) (rewritten : Rewritten) : Prop where
  joinable : Joinable lang rewritten.words.length rewritten.tokens
  count : renderedCount langs lang passage sentence.tokens = (splitAt ' ' passage.sent).length +
    rewritten.tokens.countP fun token => ! keepsWord lang rewritten.tokens token

variable {lang : String} {langs : List String} {specialForms : List (String × String)}
  {passage : Passage} {sentence : StanzaSentence} {toks : List StanzaToken}

omit [MorHandlers] in
theorem length_rewrittenOf_tokens (made : sentence.tokens.length = tokenCount langs passage) :
    (rewrittenOf sentence lang (some (splitAt ' ' passage.sent))).tokens.length =
      renderedCount langs lang passage sentence.tokens := by
  rw [rewrittenOf, (rewriteSentence_keepsTokens _ _ _ _).length, renderedCount, groupedTokens]
  by_cases italian : lang = "it"
  · rw [if_pos italian, groupItalianElisionTokens]
    cases fits : elisionGroups (splitAt ' ' passage.sent) sentence.tokens with
    | none => simpa using made
    | some grouped => simpa [italian] using (elisionGroups_length fits).1
  · simpa [italian] using made

omit [MorHandlers] in
/-- In other languages than Italian and French the postprocessor splits nothing, and no token may
be joined to others with all its words. -/
theorem rejoined_iff_of_other (listed : lang ∈ langs) (notItalian : langs.contains "it" = false)
    (notFrench : langs.contains "fr" = false)
    (spoken : ∀ word ∈ splitAt ' ' passage.sent, visible word ≠ []) {rewritten : Rewritten} :
    Rejoined langs lang passage sentence rewritten ↔
      Joinable lang rewritten.words.length rewritten.tokens ∧
        ∀ token ∈ rewritten.tokens, keepsWord lang rewritten.tokens token = true := by
  have other : lang ≠ "it" := by
    rintro rfl
    rw [List.contains_iff_mem.mpr listed] at notItalian
    cases notItalian
  have made : renderedCount langs lang passage sentence.tokens =
      (splitAt ' ' passage.sent).length := by
    rw [renderedCount, if_neg fun both => other both.1,
      tokenCount_of_other notItalian notFrench spoken]
  have none : (rewritten.tokens.countP fun token =>
      ! keepsWord lang rewritten.tokens token) = 0 ↔
        ∀ token ∈ rewritten.tokens, keepsWord lang rewritten.tokens token = true := by
    simp [List.countP_eq_zero]
  rw [← none]
  constructor
  · rintro ⟨joinable, count⟩
    exact ⟨joinable, by omega⟩
  · rintro ⟨joinable, count⟩
    exact ⟨joinable, by omega⟩

omit [PythonText] [MorHandlers] in
theorem groupedTokens_nonempty {authoritativeWords : List String} {tokens : List Token}
    (nonempty : ∀ token ∈ tokens, token.id ≠ []) :
    ∀ token ∈ groupedTokens lang authoritativeWords tokens, token.id ≠ [] := by
  unfold groupedTokens groupItalianElisionTokens
  split
  · cases fits : elisionGroups authoritativeWords tokens with
    | none => exact nonempty
    | some grouped => exact (elisionGroups_length fits).2 nonempty
  · exact nonempty

/-- A sentence with one root is given the groups that are rendered. -/
theorem parseSentence_words_iff {authoritativeWords : Option (List String)}
    (rooted : validateRootStructure (rewrittenOf sentence lang authoritativeWords).words = .ok ())
    (holds : List MorWordGroup → Prop) :
    (∃ analysis, parseSentence sentence specialForms lang authoritativeWords = .ok analysis ∧
        holds analysis.words) ↔
      ∃ groups terminator, renderWords lang specialForms
        (rewrittenOf sentence lang authoritativeWords).words
        (rewrittenOf sentence lang authoritativeWords).tokens = .ok (groups, terminator) ∧
          holds groups := by
  constructor
  · rintro ⟨analysis, parsed, held⟩
    rcases bind_eq_ok_iff.mp parsed with ⟨_, _, parsed⟩
    rcases bind_eq_ok_iff.mp parsed with ⟨⟨groups, terminator⟩, rendered, parsed⟩
    refine ⟨groups, terminator, rendered, ?_⟩
    have same : analysis.words = groups := by
      rw [← Except.ok.inj parsed]
      split
      · rename_i empty
        exact (List.isEmpty_iff.mp empty).symm
      · rfl
    exact same ▸ held
  · rintro ⟨groups, terminator, rendered, held⟩
    refine ⟨_, bind_eq_ok_iff.mpr ⟨(), rooted,
      bind_eq_ok_iff.mpr ⟨(groups, terminator), rendered, rfl⟩⟩, ?_⟩
    split
    · rename_i empty
      exact List.isEmpty_iff.mp empty ▸ held
    · exact held

variable [LawfulPythonText] (Threshold : Type) [Similarity Threshold]

omit [MorHandlers] in
theorem exists_rootAt {words : List NormalizedWord} (labelled : ∀ word ∈ words, Labelled word)
    (rooted : validateRootStructure words = .ok ()) : ∃ root, RootAt words root := by
  by_cases none : words = []
  · exact ⟨0, by simp [RootAt, none]⟩
  · rcases rootAt_of_validate none labelled rooted with ⟨root, _, rootAt, _⟩
    exact ⟨root, rootAt⟩

/-- The words of the line have one group each exactly if the renderer joins what the postprocessor
has split. -/
theorem oneWordEach_iff {coreBuilt : Bool}
    (tokenized : tokenizerProcessor Threshold coreBuilt passage.tokens langs passage.sent =
      .ok toks)
    (partitioned : Partitioned sentence)
    (texts : sentence.tokens.map (·.text) = toks.map conform)
    (analysed : ∀ token ∈ sentence.tokens, token.id ≠ [])
    (rooted : validateRootStructure
      (rewrittenOf sentence lang (some (splitAt ' ' passage.sent))).words = .ok ())
    (yields : YieldsUnits lang specialForms
      (rewrittenOf sentence lang (some (splitAt ' ' passage.sent))).words) :
    OneWordEach sentence specialForms lang passage.sent ↔
      Rejoined langs lang passage sentence
        (rewrittenOf sentence lang (some (splitAt ' ' passage.sent))) := by
  have labelled := partitioned.labelled lang (some (splitAt ' ' passage.sent))
  have numbered := partitioned.numbered lang (some (splitAt ' ' passage.sent))
  have made : sentence.tokens.length = tokenCount langs passage := by
    rw [← tokenizerProcessor_length Threshold tokenized, ← List.length_map conform, ← texts,
      List.length_map]
  have length : (rewrittenOf sentence lang (some (splitAt ' ' passage.sent))).tokens.length =
      renderedCount langs lang passage sentence.tokens := length_rewrittenOf_tokens made
  have nonempty := (rewriteSentence_keepsTokens lang (splitAt ' ' passage.sent)
    (normalizeWords sentence.words).1 sentence.tokens).nonempty (groupedTokens_nonempty analysed)
  have attached := rewriteSentence_attached (partitioned.normalized)
    (normalizeWords_attached partitioned.ids) lang (splitAt ' ' passage.sent)
  change ∀ token ∈ (rewrittenOf sentence lang _).tokens, token.id ≠ [] at nonempty
  change Attached (rewrittenOf sentence lang _).words at attached
  unfold OneWordEach
  rw [parseSentence_words_iff rooted fun groups =>
    (groups.flatMap (·.units)).map (·.index) = List.range' 1
      (rewrittenOf sentence lang (some (splitAt ' ' passage.sent))).words.length ∧
        groups.length = (splitAt ' ' passage.sent).length]
  generalize rewrittenOf sentence lang (some (splitAt ' ' passage.sent)) = rewritten at *
  rcases yields with ⟨state, ran, all⟩
  rcases exists_rootAt labelled rooted with ⟨root, rootAt⟩
  have rounds := rounds_of_foldlM rootAt ran
  have units := rounds.hasUnit_of_analysed all
  rcases rounds.chunkGra_exists numbered attached with ⟨relations, resolved⟩
  rw [renderWords_groups_iff labelled numbered rootAt nonempty units ran resolved]
  have apart : rewritten.tokens.length = rewritten.tokens.countP (keepsWord lang rewritten.tokens) +
      rewritten.tokens.countP fun token => ! keepsWord lang rewritten.tokens token := by
    simpa using List.length_eq_countP_add_countP (keepsWord lang rewritten.tokens)
  constructor
  · rintro ⟨joinable, count⟩
    exact ⟨joinable, by rw [← length, apart, count]⟩
  · rintro ⟨joinable, count⟩
    rw [← length, apart] at count
    exact ⟨joinable, Nat.add_right_cancel count⟩

end Line

section Lines

theorem blank_empty : ∀ char ∈ "".toList, isSpace char = true := List.forall_mem_nil _

theorem blank_space : ∀ char ∈ " ".toList, isSpace char = true :=
  List.forall_mem_singleton.mpr rfl

/-- The words `le` and `i` as two tokens. -/
def leI : Passage :=
  ⟨[⟨"", .str "le", blank_empty⟩, ⟨" ", .str "i", blank_space⟩], "", blank_empty⟩

def lei : StanzaSentence where
  words := [stanzaWord 1 "lei" "PRON" "root" 0]
  tokens := [⟨"lei", [1]⟩]

def leiState : LoopState where
  analyses := [some ⟨"pron", "lei", []⟩]
  surfaces := ["lei"]
  graTmp := [(1, 0, "ROOT")]
  actualIndicies := [1]
  numSkipped := 0
  root := 1
  specialForms := []
  specialFormIds := []

def leiAnalysis : SentenceAnalysis where
  words := [⟨"lei", [⟨"pron", "lei", [], 1, 0, "ROOT"⟩]⟩]
  terminator := some (2, 1, "PUNCT")
  anomalies := []

theorem treeShaped_lei : TreeShaped lei where
  ids := by decide
  spans := by decide
  tokens := by decide
  heads := by
    simp only [lei, List.forall_mem_cons]
    exact ⟨⟨0, by decide⟩, by simp⟩
  oneRoot := by decide
  acyclic := by
    refine ⟨fun _ => 0, ?_⟩
    simp only [lei, stanzaWord, List.forall_mem_cons, Option.some.injEq, Nat.cast_inj]
    refine ⟨?_, by simp⟩
    rintro id head rfl rfl hangs
    exact absurd rfl hangs

/-- Two words of a line come out as one group. -/
theorem leI_oneGroup :
    leI.sent = "le i" ∧
      tokenizerProcessor ℚ true leI.tokens ["it"] leI.sent = .ok [.str "lei"] ∧
      TreeShaped lei ∧ lei.tokens.map (·.text) = [StanzaToken.str "lei"].map conform ∧
      YieldsUnits "it" [] (rewrittenOf lei "it" (some (splitAt ' ' leI.sent))).words ∧
      parseSentence lei [] "it" (some (splitAt ' ' leI.sent)) = .ok leiAnalysis ∧
      ¬ OneWordEach lei [] "it" leI.sent := by
  have parsed : parseSentence lei [] "it" (some (splitAt ' ' leI.sent)) = .ok leiAnalysis := by
    decide +kernel
  refine ⟨by decide, ?_, treeShaped_lei, by decide, ⟨leiState, by decide +kernel, by decide⟩,
    parsed, ?_⟩
  · rw [tokenizerProcessor_slices]
    decide +kernel
  · rintro ⟨analysis, isAnalysis, _, count⟩
    obtain rfl := Except.ok.inj (parsed.symm.trans isAnalysis)
    revert count
    decide

/-- One word of two tokens. -/
def lAmi : Passage := ⟨[⟨"", .str "l'ami", blank_empty⟩], "", blank_empty⟩

def lAmiTokens : List StanzaToken := [.pair "l'" false, .pair "ami" false]

def lAmiSentence : StanzaSentence where
  words := [stanzaWord 1 "l'" "DET" "det" 2, stanzaWord 2 "ami" "NOUN" "root" 0]
  tokens := [⟨"l'", [1]⟩, ⟨"ami", [2]⟩]

def lAmiState : LoopState where
  analyses := [some ⟨"det", "l'", []⟩, some ⟨"noun", "ami", []⟩]
  surfaces := ["l'", "ami"]
  graTmp := [(1, 2, "DET"), (2, 0, "ROOT")]
  actualIndicies := [1, 2]
  numSkipped := 0
  root := 2
  specialForms := []
  specialFormIds := []

def lAmiAnalysis : SentenceAnalysis where
  words := [⟨"l'ami", [⟨"det", "l'", [], 1, 2, "DET"⟩, ⟨"noun", "ami", [], 2, 0, "ROOT"⟩]⟩]
  terminator := some (3, 2, "PUNCT")
  anomalies := []

theorem oneWordEach_lAmi : OneWordEach lAmiSentence [] "fr" lAmi.sent :=
  ⟨lAmiAnalysis, by decide +kernel, by decide +kernel, by decide⟩

theorem tokenizerProcessor_lAmi :
    tokenizerProcessor ℚ true lAmi.tokens ["fr"] lAmi.sent = .ok lAmiTokens := by
  rw [tokenizerProcessor_slices]
  decide +kernel

/-- The renderer joins the two tokens that the postprocessor has made of the word. -/
theorem lAmi_rejoined :
    Rejoined ["fr"] "fr" lAmi lAmiSentence
      (rewrittenOf lAmiSentence "fr" (some (splitAt ' ' lAmi.sent))) :=
  (oneWordEach_iff ℚ tokenizerProcessor_lAmi ⟨by decide, by decide⟩ (by decide) (by decide)
    (by decide +kernel) ⟨lAmiState, by decide +kernel, by decide⟩).mp oneWordEach_lAmi

end Lines

end Batchalign.Morphosyntax
