import Batchalign.Compare.CacheKey

/-!
# The totals of a comparison

The word totals are made of the counts of the compared utterances. An alignment uses every
token of its utterance once, so a total misses exactly the tokens of utterances that take
no part: gold utterances that map to no main utterance, and main utterances that no gold
utterance maps to.
-/

namespace Batchalign.Compare

open Batchalign.Chat Batchalign.Chat.Documented

section Alignment

theorem traceback_counts (dp : ℕ → ℕ → ℕ) (isPair : ℕ → ℕ → Bool) (n m : ℕ) :
    (traceback dp isPair n m).countP AlignItem.isMatched +
        (traceback dp isPair n m).countP AlignItem.isInsert = n ∧
      (traceback dp isPair n m).countP AlignItem.isMatched +
        (traceback dp isPair n m).countP AlignItem.isDelete = m := by
  fun_induction traceback dp isPair n m with
  | case1 => simp
  | case2 _ ih | case3 _ ih =>
      -- along an edge of the table
      simp only [List.countP_cons, AlignItem.isMatched, AlignItem.isInsert, AlignItem.isDelete]
      simp only [Bool.false_eq_true, if_false, if_true]
      omega
  | case4 _ _ _ _ ih | case5 _ _ _ _ ih | case6 _ _ _ _ ih | case7 _ _ _ _ ih =>
      -- a pair, a substitution, which counts on both sides, or a gap
      simp only [List.countP_cons, AlignItem.isMatched, AlignItem.isInsert, AlignItem.isDelete]
      simp only [Bool.false_eq_true, if_false, if_true]
      omega

theorem countP_map_delete (n : ℕ) :
    ((List.range n).map AlignItem.delete).countP AlignItem.isMatched = 0 ∧
      ((List.range n).map AlignItem.delete).countP AlignItem.isInsert = 0 ∧
      ((List.range n).map AlignItem.delete).countP AlignItem.isDelete = n := by
  refine ⟨?_, ?_, ?_⟩
  · simp [List.countP_map, List.countP_eq_zero, AlignItem.isMatched]
  · simp [List.countP_map, List.countP_eq_zero, AlignItem.isInsert]
  · rw [List.countP_map]
    exact (List.countP_eq_length.mpr fun _ _ => rfl).trans List.length_range

theorem countP_map_insert (n : ℕ) :
    ((List.range n).map AlignItem.insert).countP AlignItem.isMatched = 0 ∧
      ((List.range n).map AlignItem.insert).countP AlignItem.isInsert = n ∧
      ((List.range n).map AlignItem.insert).countP AlignItem.isDelete = 0 := by
  refine ⟨?_, ?_, ?_⟩
  · simp [List.countP_map, List.countP_eq_zero, AlignItem.isMatched]
  · rw [List.countP_map]
    exact (List.countP_eq_length.mpr fun _ _ => rfl).trans List.length_range
  · simp [List.countP_map, List.countP_eq_zero, AlignItem.isDelete]

/-- Every main token is matched or inserted, every gold token matched or deleted. -/
theorem levenshteinAlign_counts {α β : Type} (isMatch : α → β → Bool) (main : List α)
    (gold : List β) :
    (levenshteinAlign isMatch main gold).countP AlignItem.isMatched +
        (levenshteinAlign isMatch main gold).countP AlignItem.isInsert = main.length ∧
      (levenshteinAlign isMatch main gold).countP AlignItem.isMatched +
        (levenshteinAlign isMatch main gold).countP AlignItem.isDelete = gold.length := by
  simp only [levenshteinAlign]
  split
  · rename_i empty
    rw [List.isEmpty_iff] at empty
    rcases countP_map_delete gold.length with ⟨matched, inserted, deleted⟩
    rw [matched, inserted, deleted, empty]
    simp
  · split
    · rename_i empty
      rw [List.isEmpty_iff] at empty
      rcases countP_map_insert main.length with ⟨matched, inserted, deleted⟩
      rw [matched, inserted, deleted, empty]
      simp
    · simp only [List.countP_reverse]
      exact traceback_counts _ _ main.length gold.length

end Alignment

section Utterances

/-- The tokens of distinct utterances, counted together. -/
theorem sum_toksOfUtt {idxs : List ℕ} (nodup : idxs.Nodup) (toks : List CompareTok) :
    (idxs.map fun idx => (toksOfUtt toks idx).length).sum =
      toks.countP fun tok => tok.uttIdx ∈ idxs := by
  induction idxs with
  | nil => simp
  | cons idx idxs ih =>
      rw [List.nodup_cons] at nodup
      rw [List.map_cons, List.sum_cons, ih nodup.2]
      clear ih
      induction toks with
      | nil => rfl
      | cons tok toks ih =>
          simp only [toksOfUtt, List.filter_cons, List.countP_cons, List.mem_cons,
            decide_eq_true_eq] at ih ⊢
          by_cases here : tok.uttIdx = idx
          · have notLater : tok.uttIdx ∉ idxs := by
              rw [here]
              exact nodup.1
            simp only [here, beq_self_eq_true, if_true, List.length_cons, true_or]
            rw [here] at notLater
            simp only [notLater, if_false]
            omega
          · simp only [beq_eq_false_iff_ne.mpr here, Bool.false_eq_true, if_false, here,
              false_or]
            omega

theorem mem_goldsMappedTo {targets : List (Option ℕ)} {mainIdx goldIdx : ℕ} :
    goldIdx ∈ goldsMappedTo targets mainIdx ↔ targets[goldIdx]? = some (some mainIdx) := by
  simp only [goldsMappedTo, List.mem_filterMap, Prod.exists]
  constructor
  · rintro ⟨target, idx, member, isHere⟩
    split at isHere
    · rename_i mapped
      cases isHere
      rw [← mapped]
      exact List.mem_zipIdx_iff_getElem?.mp member
    · cases isHere
  · intro mapped
    exact ⟨some mainIdx, goldIdx, List.mem_zipIdx_iff_getElem?.mpr mapped, if_pos rfl⟩

theorem goldsMappedTo_nodup (targets : List (Option ℕ)) (mainIdx : ℕ) :
    (goldsMappedTo targets mainIdx).Nodup := by
  have positions : targets.zipIdx.Pairwise fun a b => a.2 ≠ b.2 := by
    rw [← List.pairwise_map, List.zipIdx_map_snd]
    exact List.nodup_range'
  rw [goldsMappedTo, List.Nodup, List.pairwise_filterMap]
  refine positions.imp ?_
  rintro ⟨target, goldIdx⟩ ⟨target', goldIdx'⟩ different idx isHere idx' isHere' rfl
  simp only [Option.ite_none_right_eq_some, Option.some_inj] at isHere isHere'
  exact different (isHere.2.trans isHere'.2.symm)

theorem mem_mappedMainUtts {targets : List (Option ℕ)} {mainIdx : ℕ} :
    mainIdx ∈ mappedMainUtts targets ↔ some mainIdx ∈ targets := by
  simp [mappedMainUtts]

theorem mappedMainUtts_nodup (targets : List (Option ℕ)) : (mappedMainUtts targets).Nodup := by
  rw [mappedMainUtts, (List.perm_insertionSort _ _).nodup_iff]
  exact List.nodup_dedup _

/-- The gold utterances that map somewhere, once each. -/
theorem mappedGolds_nodup (targets : List (Option ℕ)) :
    ((mappedMainUtts targets).flatMap (goldsMappedTo targets)).Nodup := by
  rw [List.nodup_flatMap]
  refine ⟨fun mainIdx _ => goldsMappedTo_nodup targets mainIdx, ?_⟩
  refine (mappedMainUtts_nodup targets).imp ?_
  intro mainIdx mainIdx' different goldIdx mapped mapped'
  rw [mem_goldsMappedTo] at mapped mapped'
  rw [mapped] at mapped'
  apply different
  simpa using mapped'

theorem mem_mappedGolds {targets : List (Option ℕ)} {goldIdx : ℕ} :
    goldIdx ∈ (mappedMainUtts targets).flatMap (goldsMappedTo targets) ↔
      ∃ mainIdx, targets[goldIdx]? = some (some mainIdx) := by
  simp only [List.mem_flatMap, mem_mappedMainUtts, mem_goldsMappedTo]
  constructor
  · rintro ⟨mainIdx, _, mapped⟩
    exact ⟨mainIdx, mapped⟩
  · rintro ⟨mainIdx, mapped⟩
    exact ⟨mainIdx, List.mem_of_getElem? mapped, mapped⟩

end Utterances

section Totals

variable [UnicodeCase] {main gold : List CompareTok} {terminators : List (Option String)}
  {targets : List (Option ℕ)}

/-- The totals of one compared utterance are the lengths of its two token lists. -/
theorem compareUtt_totals (mainIdx : ℕ) :
    let cmp := compareUtt main gold terminators targets mainIdx
    cmp.matchCount + cmp.inserts = (toksOfUtt main mainIdx).length ∧
      cmp.matchCount + cmp.deletes =
        ((goldsMappedTo targets mainIdx).map fun idx => (toksOfUtt gold idx).length).sum := by
  have counts := levenshteinAlign_counts matchFn
    ((toksOfUtt main mainIdx).map CompareTok.text)
    (((goldsMappedTo targets mainIdx).flatMap (toksOfUtt gold)).map CompareTok.text)
  rw [List.length_map, List.length_map, List.length_flatMap] at counts
  exact counts

theorem summarize_totals [Float64] (perUtt : List UttCmp) :
    (summarize perUtt).totalGoldWords =
        (perUtt.map fun cmp => cmp.matchCount + cmp.deletes).sum ∧
      (summarize perUtt).totalMainWords =
        (perUtt.map fun cmp => cmp.matchCount + cmp.inserts).sum := by
  simp [summarize, List.sum_map_add]

/-- The totals count the tokens of the utterances that take part. -/
theorem summarize_compareUtts [Float64] :
    let summary := summarize ((mappedMainUtts targets).map
      (compareUtt main gold terminators targets))
    summary.totalGoldWords = gold.countP (fun tok =>
        tok.uttIdx ∈ (mappedMainUtts targets).flatMap (goldsMappedTo targets)) ∧
      summary.totalMainWords = main.countP (fun tok => tok.uttIdx ∈ mappedMainUtts targets) := by
  intro summary
  rcases summarize_totals ((mappedMainUtts targets).map
    (compareUtt main gold terminators targets)) with ⟨totalGold, totalMain⟩
  constructor
  · refine totalGold.trans ?_
    rw [← sum_toksOfUtt (mappedGolds_nodup targets), List.map_flatMap, List.flatMap_def,
      List.sum_flatten, List.map_map, List.map_map]
    congr 1
    apply List.map_congr_left
    intro mainIdx _
    exact (compareUtt_totals mainIdx).2
  · refine totalMain.trans ?_
    rw [← sum_toksOfUtt (mappedMainUtts_nodup targets), List.map_map]
    congr 1
    apply List.map_congr_left
    intro mainIdx _
    exact (@compareUtt_totals _ main gold terminators targets mainIdx).1

theorem conformWithMapping_length (words : List SrcWord) :
    (conformWithMapping words).length = (compareToks words).length := by
  rw [compareToks_eq, conformWithMapping, List.length_flatMap, List.length_flatMap]
  simp only [List.length_map]
  conv_rhs => rw [← List.zipIdx_map_fst 0 words, List.map_map]
  rfl

variable [Talkbank]

/-- The main utterance of every gold utterance, if it maps to one. -/
def goldTargets (mainAst goldAst : ChatFile) : List (Option ℕ) :=
  let main := compareToks (extractWords mainAst)
  let gold := compareToks (extractWords goldAst)
  goldToMain (main.map CompareTok.text) (main.map CompareTok.uttIdx) 0
    (((List.range goldAst.utterances.length).map (toksOfUtt gold)).map
      fun toks => toks.map CompareTok.text)

theorem comparePerUtt_eq (mainAst goldAst : ChatFile) :
    comparePerUtt mainAst goldAst = (mappedMainUtts (goldTargets mainAst goldAst)).map
      (compareUtt (compareToks (extractWords mainAst)) (compareToks (extractWords goldAst))
        (extractGoldTerminators goldAst) (goldTargets mainAst goldAst)) := rfl

variable [Float64] [ChatFormat]

/-- What a comparison that succeeds reports. -/
theorem compareOne_metrics {input : CompareInput} {output : CompareOutput}
    {mainAst goldAst : ChatFile} (mainParsed : parseTranscript "main" input.mainChat = .ok mainAst)
    (goldParsed : parseTranscript "gold" input.goldChat = .ok goldAst)
    (compared : compareOne input = .ok output) :
    output.metrics = buildCompareMetrics (comparePerUtt mainAst goldAst)
      (summarize (comparePerUtt mainAst goldAst)) input.sourceId := by
  simp only [compareOne, mainParsed, goldParsed] at compared
  change (injectPerUttTiers mainAst (comparePerUtt mainAst goldAst) >>= _) = _ at compared
  cases injected : injectPerUttTiers mainAst (comparePerUtt mainAst goldAst) with
  | error error =>
      rw [injected] at compared
      cases compared
  | ok annotated =>
      rw [injected] at compared
      cases compared
      rfl

/-- The totals are complete exactly when every gold utterance with tokens maps to a main
utterance, and every main utterance with tokens is one that a gold utterance maps to. -/
theorem compareOne_totals_iff {input : CompareInput} {output : CompareOutput}
    {mainAst goldAst : ChatFile} (mainParsed : parseTranscript "main" input.mainChat = .ok mainAst)
    (goldParsed : parseTranscript "gold" input.goldChat = .ok goldAst)
    (compared : compareOne input = .ok output) :
    (output.metrics.totalGoldWords = (conformWithMapping (extractWords goldAst)).length ∧
      output.metrics.totalMainWords = (conformWithMapping (extractWords mainAst)).length) ↔
    (∀ tok ∈ compareToks (extractWords goldAst), ∃ mainIdx,
        (goldTargets mainAst goldAst)[tok.uttIdx]? = some (some mainIdx)) ∧
      ∀ tok ∈ compareToks (extractWords mainAst),
        some tok.uttIdx ∈ goldTargets mainAst goldAst := by
  have totals := @summarize_compareUtts _ (compareToks (extractWords mainAst))
    (compareToks (extractWords goldAst)) (extractGoldTerminators goldAst)
    (goldTargets mainAst goldAst) _
  rw [← comparePerUtt_eq] at totals
  rw [compareOne_metrics mainParsed goldParsed compared, conformWithMapping_length,
    conformWithMapping_length]
  simp only [buildCompareMetrics]
  rw [totals.1, totals.2, List.countP_eq_length, List.countP_eq_length]
  simp only [decide_eq_true_eq, mem_mappedGolds, mem_mappedMainUtts]

end Totals

section Instances

theorem compareOne_totals_iff_sample :
    ∃ output, compareOne (sampleInput "session") = .ok output ∧
      output.metrics.totalGoldWords = 2 ∧ output.metrics.totalMainWords = 3 := by
  have goldParsed : parseTranscript "gold" (sampleInput "session").goldChat = .ok sampleGold := by
    have differs : ¬ writeChat sampleGold = writeChat sampleMain := by decide +kernel
    simp only [sampleInput, parseTranscript, parseChat, ChatFormat.parseAndValidate]
    rw [if_neg differs, if_pos trivial]
    rfl
  have targets : goldTargets sampleMain sampleGold = [some 0] := by decide +kernel
  have golds : ∀ tok ∈ compareToks (extractWords sampleGold), tok.uttIdx = 0 := by
    decide +kernel
  have mains : ∀ tok ∈ compareToks (extractWords sampleMain), tok.uttIdx = 0 := by
    decide +kernel
  cases compared : compareOne (sampleInput "session") with
  | error error =>
      have succeeds : (compareOne (sampleInput "session")).isOk = true := by decide +kernel
      rw [compared] at succeeds
      cases succeeds
  | ok output =>
      have totals := (compareOne_totals_iff rfl goldParsed compared).mpr (by
        rw [targets]
        refine ⟨?_, ?_⟩
        · intro tok member
          exact ⟨0, by rw [golds tok member]; rfl⟩
        · intro tok member
          rw [mains tok member]
          simp)
      refine ⟨output, rfl, totals.1.trans ?_, totals.2.trans ?_⟩
      · decide +kernel
      · decide +kernel

def greetingMain : ChatFile := sampleChat [["hello"], ["cats", "sleep"]]

def greetingGold : ChatFile := sampleChat [["hello"], ["goodbye", "now"]]

/-- The parser on the texts of the two transcripts. -/
@[reducible] def greetingFormat : ChatFormat where
  parseAndValidate text :=
    if text = writeChat greetingMain then .ok greetingMain
    else if text = writeChat greetingGold then .ok greetingGold
    else .error (.other "not a sample")
  toChat := writeChat

/-- The second turns have no word in common. Four words vanish and the rate is zero. -/
theorem compareOne_drops_words :
    let input : CompareInput := ⟨"session", writeChat greetingMain, writeChat greetingGold⟩
    (@compareOne _ greetingFormat _ _ input).map (fun output =>
        (output.metrics.totalGoldWords, output.metrics.totalMainWords, output.metrics.wer)) =
      .ok (1, 1, 0) ∧
      (conformWithMapping (extractWords greetingGold)).length = 3 ∧
      (conformWithMapping (extractWords greetingMain)).length = 3 := by
  decide +kernel

end Instances

end Batchalign.Compare
