import Batchalign.Chat.Documented
import Batchalign.Compare.Artifact
import Batchalign.Compare.Basic
import Batchalign.Library.MemoTable

/-!
# The cache key of a comparison

The key of `proto/compare.rs` holds the two transcripts and leaves out the source id.
The output depends on the source id in two places: it echoes it, and the file label
of the metrics is made from it. So inputs with one key have one result exactly when
their source ids have one label, and a cache serves every file its own label exactly
when no two files with the same transcripts have different labels.
-/

namespace Batchalign.Compare

open Batchalign.Chat Batchalign.Chat.Documented

/-- What `CacheKey for CompareInput` hashes. -/
structure CompareKeyContent where
  mainChat : String
  goldChat : String
deriving DecidableEq, Repr

def CompareInput.keyContent (input : CompareInput) : CompareKeyContent :=
  ⟨input.mainChat, input.goldChat⟩

/-- An output without the echoed source id. -/
structure CompareResults where
  annotatedMain : String
  metricsJson : String
  metrics : CompareMetrics
deriving DecidableEq, Repr

def CompareOutput.results (output : CompareOutput) : CompareResults :=
  ⟨output.annotatedMain, output.metricsJson, output.metrics⟩

section Sample

/-- A transcript with one speaker. -/
def sampleChat (utterances : List (List String)) : ChatFile :=
  let child : Participant :=
    ⟨"CHI", none, "Target_Child", ⟨"eng", some "corpus", "CHI", "Target_Child"⟩⟩
  { participants := ⟨[("CHI", child)], by simp⟩
    lines :=
      [.header (.other "@UTF8"), .header (.other "@Begin"), .header (.other "@Languages:\teng"),
        .header (.participants [⟨"CHI", none, "Target_Child"⟩]), .header (.id child.id)] ++
      utterances.map (fun words => .utterance (.new (.new "CHI"
        (words.map fun word => .word (Word.simple word)) .period))) ++
      [.header (.other "@End")] }

def sampleMain : ChatFile := sampleChat [["hello", "there", "friend"]]

def sampleGold : ChatFile := sampleChat [["hello", "there"]]

/-- The parser on the texts of the two transcripts. -/
instance sampleFormat : ChatFormat where
  parseAndValidate text :=
    if text = writeChat sampleMain then .ok sampleMain
    else if text = writeChat sampleGold then .ok sampleGold
    else .error (.other "not a sample")
  toChat := writeChat

def sampleInput (sourceId : String) : CompareInput :=
  ⟨sourceId, writeChat sampleMain, writeChat sampleGold⟩

end Sample

section Comparisons

variable [UnicodeCase] [Float64]

section Outputs

/-- What two transcripts determine of a comparison. -/
structure Comparison where
  annotatedMain : String
  perUtt : List UttCmp

/-- The output for a file. -/
def Comparison.output (comparison : Comparison) (sourceId : String) : CompareOutput :=
  let summary := summarize comparison.perUtt
  { sourceId := sourceId
    annotatedMain := comparison.annotatedMain
    metricsJson := summaryJson summary
    metrics := buildCompareMetrics comparison.perUtt summary sourceId }

theorem results_eq_iff (comparison : Comparison) (first second : String) :
    (comparison.output second).results = (comparison.output first).results ↔
      fileLabel first = fileLabel second := by
  constructor
  · intro same
    have sameMetrics := congrArg CompareResults.metrics same
    exact (congrArg CompareMetrics.fileLabel sameMetrics).symm
  · intro same
    simp [Comparison.output, CompareOutput.results, buildCompareMetrics, same]

/-- The label that the CSV line of an output starts with. -/
def csvLabel (output : CompareOutput) : List (Option String) :=
  (csvRows (compareMetricsToArtifact output.metrics output.sourceId)).map List.head?

theorem csvLabel_output (comparison : Comparison) (sourceId : String) :
    csvLabel (comparison.output sourceId) = [some (fileLabel sourceId)] :=
  csvRows_file _ _

end Outputs

variable [Talkbank] [ChatFormat]

section TwoRuns

def compareTranscripts (content : CompareKeyContent) : BAResult Comparison := do
  let mainAst ← parseTranscript "main" content.mainChat
  let goldAst ← parseTranscript "gold" content.goldChat
  let perUtt := comparePerUtt mainAst goldAst
  let annotated ← injectPerUttTiers mainAst perUtt
  return ⟨ChatFormat.toChat (injectSummaryHeader annotated (summarize perUtt)), perUtt⟩

theorem compareOne_eq (input : CompareInput) :
    compareOne input =
      (compareTranscripts input.keyContent).map (·.output input.sourceId) := by
  simp only [compareOne, compareTranscripts, CompareInput.keyContent]
  cases parseTranscript "main" input.mainChat with
  | error => rfl
  | ok mainAst =>
      cases parseTranscript "gold" input.goldChat with
      | error => rfl
      | ok goldAst =>
          change (injectPerUttTiers mainAst (comparePerUtt mainAst goldAst) >>= _) =
            Except.map _ (injectPerUttTiers mainAst (comparePerUtt mainAst goldAst) >>= _)
          cases injectPerUttTiers mainAst (comparePerUtt mainAst goldAst) <;> rfl

/-- The two runs of inputs with one key. -/
theorem compareOne_cases {x y : CompareInput} (sameKey : x.keyContent = y.keyContent) :
    (∃ error, compareOne x = .error error ∧ compareOne y = .error error) ∨
      ∃ comparison : Comparison, compareOne x = .ok (comparison.output x.sourceId) ∧
        compareOne y = .ok (comparison.output y.sourceId) := by
  rw [compareOne_eq x, compareOne_eq y, sameKey]
  cases compareTranscripts y.keyContent with
  | error error => exact .inl ⟨error, rfl, rfl⟩
  | ok comparison => exact .inr ⟨comparison, rfl, rfl⟩

theorem compareOne_error {x y : CompareInput} (sameKey : x.keyContent = y.keyContent)
    {error : BAError} (failed : compareOne x = .error error) : compareOne y = .error error := by
  rcases compareOne_cases sameKey with ⟨error', first, second⟩ | ⟨comparison, first, second⟩
  · rw [second, ← first, failed]
  · cases failed.symm.trans first

theorem sameResults_iff {x y : CompareInput} (sameKey : x.keyContent = y.keyContent)
    {output : CompareOutput} (answered : compareOne x = .ok output) :
    (compareOne y).map CompareOutput.results = .ok output.results ↔
      fileLabel x.sourceId = fileLabel y.sourceId := by
  rcases compareOne_cases sameKey with ⟨error, first, second⟩ | ⟨comparison, first, second⟩
  · cases answered.symm.trans first
  · cases answered.symm.trans first
    rw [second, ← results_eq_iff comparison]
    constructor
    · intro same
      exact Except.ok.inj same
    · intro same
      exact congrArg Except.ok same

end TwoRuns

section Served

/-- The CSV line a file is answered with, if it is, starts with the file's own label. -/
def OwnLabel (answer : CompareInput × BAResult CompareOutput) : Prop :=
  ∀ output, answer.2 = .ok output → csvLabel output = [some (fileLabel answer.1.sourceId)]

theorem compareOne_ownLabel (input : CompareInput) : OwnLabel (input, compareOne input) := by
  intro output answered
  rcases compareOne_cases (Eq.refl input.keyContent) with
    ⟨error, failed, -⟩ | ⟨comparison, computed, -⟩
  · cases failed.symm.trans answered
  · cases computed.symm.trans answered
    exact csvLabel_output comparison input.sourceId

theorem compareOne_coherent_iff {x y : CompareInput} (sameKey : x.keyContent = y.keyContent) :
    MemoTable.Coherent compareOne csvLabel x y ↔
      ∀ output, compareOne x = .ok output → fileLabel x.sourceId = fileLabel y.sourceId := by
  rcases compareOne_cases sameKey with ⟨error, first, second⟩ | ⟨comparison, first, second⟩
  · simp [MemoTable.Coherent, first]
  · simp [MemoTable.Coherent, first, second, Except.map, csvLabel_output, eq_comm]

theorem compareOne_sameSuccess {x y : CompareInput} (sameKey : x.keyContent = y.keyContent) :
    MemoTable.Coherent compareOne (fun _ => ()) x y := by
  intro output answered
  rcases compareOne_cases sameKey with ⟨error, first, second⟩ | ⟨comparison, first, second⟩
  · cases first.symm.trans answered
  · rw [second]
    rfl

variable {Digest : Type} [DecidableEq Digest] {digest : CompareKeyContent → Digest}

/-- Every file has its own label exactly when every file is answered with the label that its
own comparison has. -/
theorem ownLabel_iff_observed (injective : Function.Injective digest)
    (sequence : List CompareInput) :
    (∀ answer ∈ MemoTable.serveAll (fun x => digest x.keyContent) compareOne [] sequence,
        OwnLabel answer) ↔
      ∀ answer ∈ MemoTable.serveAll (fun x => digest x.keyContent) compareOne [] sequence,
        answer.2.map csvLabel = (compareOne answer.1).map csvLabel := by
  have parity := (@MemoTable.serveAll_observed_iff_coherent _ _ _ _ _ _
    (fun x : CompareInput => digest x.keyContent) compareOne (fun _ => ())
    (fun x y sameDigest => compareOne_sameSuccess (injective sameDigest)) sequence).mpr
    (fun x _ y _ sameDigest => compareOne_sameSuccess (injective sameDigest))
  apply forall₂_congr
  rintro ⟨input, result⟩ served
  have sameOutcome := parity _ served
  have own := compareOne_ownLabel input
  cases result with
  | error error =>
      cases computed : compareOne input with
      | error error' =>
          simp only [computed, Except.map, Except.error.injEq] at sameOutcome
          simp [OwnLabel, Except.map, sameOutcome]
      | ok output' => simp [computed, Except.map] at sameOutcome
  | ok output =>
      cases computed : compareOne input with
      | error error' => simp [computed, Except.map] at sameOutcome
      | ok output' =>
          have label := own output' computed
          simp only at label
          simp [OwnLabel, Except.map, label]

/-- Inputs with one key fail alike, and succeed with the same results exactly when their
source ids have one label. In every sequence of requests served from the cache every file
has its own label exactly when the files that share a key and can be compared have one. The
digest of the key is taken to be free of collisions. -/
theorem cachedComparison_iff (injective : Function.Injective digest) :
    (∀ x y : CompareInput, x.keyContent = y.keyContent →
      (∀ error, compareOne x = .error error → compareOne y = .error error) ∧
        ∀ output, compareOne x = .ok output →
          ((compareOne y).map CompareOutput.results = .ok output.results ↔
            fileLabel x.sourceId = fileLabel y.sourceId)) ∧
      ∀ sequence : List CompareInput,
        (∀ answer ∈ MemoTable.serveAll (fun x => digest x.keyContent) compareOne [] sequence,
            OwnLabel answer) ↔
          ∀ x ∈ sequence, ∀ y ∈ sequence, x.keyContent = y.keyContent →
            ∀ output, compareOne x = .ok output →
              fileLabel x.sourceId = fileLabel y.sourceId := by
  constructor
  · intro x y sameKey
    constructor
    · intro error failed
      exact compareOne_error sameKey failed
    · intro output answered
      exact sameResults_iff sameKey answered
  · intro sequence
    rw [ownLabel_iff_observed injective, MemoTable.serveAll_observed_iff_coherent
      (fun x y sameDigest => compareOne_sameSuccess (injective sameDigest))]
    apply forall₂_congr
    intro x _
    apply forall₂_congr
    intro y _
    constructor
    · intro coherent sameKey
      exact (compareOne_coherent_iff sameKey).mp (coherent (congrArg digest sameKey))
    · intro sameLabel sameDigest
      exact (compareOne_coherent_iff (injective sameDigest)).mpr
        (sameLabel (injective sameDigest))

end Served

end Comparisons

/-- Two files of one name in different directories. -/
theorem cachedComparison_iff_sharedLabel :
    let first := sampleInput "before/session"
    let second := sampleInput "after/session"
    (∃ output, compareOne first = .ok output ∧
        (compareOne second).map CompareOutput.results = .ok output.results) ∧
      ∀ answer ∈ MemoTable.serveAll (fun x => id x.keyContent) compareOne [] [first, second],
        OwnLabel answer := by
  intro first second
  have both := @cachedComparison_iff _ _ _ _ CompareKeyContent _ id Function.injective_id
  have sameLabel : fileLabel first.sourceId = fileLabel second.sourceId := by decide
  constructor
  · cases answered : compareOne first with
    | error error =>
        have succeeds : (compareOne first).isOk = true := by decide +kernel
        rw [answered] at succeeds
        cases succeeds
    | ok output =>
        exact ⟨output, rfl, ((both.1 first second rfl).2 output answered).mpr sameLabel⟩
  · apply (both.2 [first, second]).mpr
    intro x xMem y yMem _ _ _
    have labels : ∀ input ∈ [first, second], fileLabel input.sourceId = "session.cha" := by
      decide
    rw [labels x xMem, labels y yMem]

/-- Two files with the same transcripts under different names: the second is served the row
of the first. -/
theorem cachedComparison_mislabels :
    let first := sampleInput "session1"
    let second := sampleInput "session2"
    first.keyContent = second.keyContent ∧
      (compareOne first).map csvLabel = .ok [some "session1.cha"] ∧
      (compareOne second).map csvLabel = .ok [some "session2.cha"] ∧
      (compareOne first).map CompareOutput.results ≠
        (compareOne second).map CompareOutput.results ∧
      (MemoTable.serveAll CompareInput.keyContent compareOne [] [first, second]).map
          (fun answer => answer.2.map csvLabel) =
        [.ok [some "session1.cha"], .ok [some "session1.cha"]] := by
  decide +kernel

end Batchalign.Compare
