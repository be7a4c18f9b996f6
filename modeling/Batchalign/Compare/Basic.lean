import Batchalign.Compare.Mapping
import Batchalign.Compare.Metrics
import Batchalign.Compare.Words

/-!
# Comparing two transcripts

`compare_one` of `backends/compare.rs`. The CHAT parser and writer belong to a library
outside this repository and are parameters; validation only marks what the parser
returned, so it does not appear.
-/

namespace Batchalign.Compare

open Batchalign.Chat

/-- `PipelineError` of `talkbank_transform`; the errors are given by their `Display` texts. -/
inductive PipelineError where
  | parse (errors : String)
  | validation (errors : List String)
  | other (text : String)
deriving DecidableEq, Repr

/-- The CHAT parser and writer. -/
class ChatFormat where
  parseAndValidate : String → Except PipelineError ChatFile
  toChat : ChatFile → String

structure CompareInput where
  sourceId : String
  mainChat : String
  goldChat : String
deriving DecidableEq, Repr

structure CompareOutput where
  sourceId : String
  annotatedMain : String
  metricsJson : String
  metrics : CompareMetrics
deriving DecidableEq, Repr

def PipelineError.toBAError : PipelineError → BAError
  | .parse errors => .parse errors
  | .validation errors => .validation ("\n".intercalate errors)
  | .other text => .internal s!"pipeline: {text}"

def parseChat [ChatFormat] (text : String) : BAResult ChatFile :=
  (ChatFormat.parseAndValidate text).mapError PipelineError.toBAError

/-- Parses the `side` transcript of a comparison. -/
def parseTranscript [ChatFormat] (side text : String) : BAResult ChatFile :=
  (parseChat text).mapError fun e =>
    .worker s!"CompareBackend: failed to parse {side} transcript: {e.display}"

section Comparison

variable [UnicodeCase]

/-- The conformed tokens of a transcript with the utterance and the part of speech of the word
each comes from. -/
structure CompareTok where
  text : String
  uttIdx : ℕ
  pos : String
deriving DecidableEq, Repr

def compareToks (words : List SrcWord) : List CompareTok :=
  (conformWithMapping words).filterMap fun tok =>
    words[tok.srcIdx]?.map fun word => ⟨tok.text, word.uttIdx, word.pos⟩

/-- No token is lost: each has the data of the word it comes from. -/
theorem compareToks_eq (words : List SrcWord) :
    compareToks words = words.flatMap fun word =>
      (conformOne word.text).map fun text => ⟨text, word.uttIdx, word.pos⟩ := by
  have perWord : ∀ entry ∈ words.zipIdx,
      ((conformOne entry.1.text).map fun text => (⟨text, entry.2⟩ : ConformedTok)).filterMap
          (fun tok => words[tok.srcIdx]?.map fun word =>
            (⟨tok.text, word.uttIdx, word.pos⟩ : CompareTok)) =
        (conformOne entry.1.text).map fun text => ⟨text, entry.1.uttIdx, entry.1.pos⟩ := by
    rintro ⟨word, idx⟩ indexed
    have found : words[idx]? = some word := List.mem_zipIdx_iff_getElem?.mp indexed
    simp [List.filterMap_map, found]
  simp only [compareToks, conformWithMapping]
  rw [List.filterMap_flatMap, List.flatMap_congr perWord]
  conv_rhs => rw [← List.zipIdx_map_fst 0 words, List.flatMap_map]

/-- The tokens of one utterance. -/
def toksOfUtt (toks : List CompareTok) (uttIdx : ℕ) : List CompareTok :=
  toks.filter (·.uttIdx == uttIdx)

/-- The gold utterances that map to a main utterance, in order. -/
def goldsMappedTo (targets : List (Option ℕ)) (mainIdx : ℕ) : List ℕ :=
  targets.zipIdx.filterMap fun (target, goldIdx) =>
    if target = some mainIdx then some goldIdx else none

/-- The main utterances that a gold utterance maps to, in the order of a `BTreeMap`. -/
def mappedMainUtts (targets : List (Option ℕ)) : List ℕ :=
  (targets.filterMap id).dedup.insertionSort (· ≤ ·)

/-- The terminator of the last mapped gold utterance. -/
def terminatorToken (terminators : List (Option String)) (goldIdxs : List ℕ) : List CmpToken :=
  match goldIdxs.getLast?.bind fun last => terminators.getD last none with
  | some terminator => [⟨terminator, .matched, .punct⟩]
  | none => []

/-- The second phase for one main utterance: all its tokens against all tokens of the gold
utterances mapped to it. -/
def compareUtt (main gold : List CompareTok) (terminators : List (Option String))
    (targets : List (Option ℕ)) (mainIdx : ℕ) : UttCmp :=
  let mainToks := toksOfUtt main mainIdx
  let goldIdxs := goldsMappedTo targets mainIdx
  let goldToks := goldIdxs.flatMap (toksOfUtt gold)
  let mainTexts := mainToks.map CompareTok.text
  let goldTexts := goldToks.map CompareTok.text
  let cmp := buildUttCmp (levenshteinAlign matchFn mainTexts goldTexts) mainTexts
    (mainToks.map CompareTok.pos) goldTexts (goldToks.map CompareTok.pos)
  { cmp with
    tokens := cmp.tokens ++ terminatorToken terminators goldIdxs
    mainUttIdx := some mainIdx }

/-- Both phases: the gold utterances are mapped, then every main utterance that one maps to
is compared. -/
def comparePerUtt [Talkbank] (mainAst goldAst : ChatFile) : List UttCmp :=
  let main := compareToks (extractWords mainAst)
  let gold := compareToks (extractWords goldAst)
  let goldByUtt := (List.range goldAst.utterances.length).map (toksOfUtt gold)
  let targets := goldToMain (main.map CompareTok.text) (main.map CompareTok.uttIdx) 0
    (goldByUtt.map fun toks => toks.map CompareTok.text)
  (mappedMainUtts targets).map
    (compareUtt main gold (extractGoldTerminators goldAst) targets)

end Comparison

section Injection

variable [UnicodeCase] [Float64]

/-- The text of a tier must not be empty. -/
def nonEmpty (text : String) : BAResult String :=
  if text.isEmpty then
    .error (.internal
      s!"compare: refusing to construct empty NonEmptyString for {debugText text}")
  else .ok text

def pushUserTier (utt : Utterance) (label payload : String) : BAResult Utterance := do
  let label ← nonEmpty label
  let content ← nonEmpty payload
  return { utt with
    dependentTiers := utt.dependentTiers ++ [.userDefined label (some content)] }

def UttCmp.merge (existing cmp : UttCmp) : UttCmp :=
  { existing with
    tokens := existing.tokens ++ cmp.tokens
    matchCount := existing.matchCount + cmp.matchCount
    inserts := existing.inserts + cmp.inserts
    deletes := existing.deletes + cmp.deletes }

/-- The comparisons with tokens that belong to a main utterance, merged into one. -/
def mergedFor (perUtt : List UttCmp) (mainIdx : ℕ) : Option UttCmp :=
  match perUtt.filter fun cmp => cmp.mainUttIdx == some mainIdx && !cmp.tokens.isEmpty with
  | [] => none
  | first :: rest => some (rest.foldl UttCmp.merge first)

def pushCompareTiers (utt : Utterance) (cmp : UttCmp) : BAResult Utterance := do
  let utt ← pushUserTier utt "xsrep" (serializeXsrep cmp)
  let utt ← pushUserTier utt "xsmor" (serializeXsmor cmp)
  pushUserTier utt "xcmp" (serializeXcmp cmp)

/-- The lines with the tiers of their comparisons; `idx` is the index of the next utterance. -/
def injectLines (perUtt : List UttCmp) : ℕ → List Line → BAResult (List Line)
  | _, [] => .ok []
  | idx, .utterance utt :: lines => do
      let utt ←
        match mergedFor perUtt idx with
        | some cmp => pushCompareTiers utt cmp
        | none => .ok utt
      let lines ← injectLines perUtt (idx + 1) lines
      return .utterance utt :: lines
  | idx, line :: lines => do
      let lines ← injectLines perUtt idx lines
      return line :: lines

def injectPerUttTiers (chat : ChatFile) (perUtt : List UttCmp) : BAResult ChatFile := do
  let lines ← injectLines perUtt 0 chat.lines
  return { chat with lines := lines }

/-- The summary as a comment before the first utterance. -/
def injectSummaryHeader (chat : ChatFile) (summary : Summary) : ChatFile :=
  let header := Line.header (.comment s!"ba.compare.summary: {summaryJson summary}")
  { chat with lines := chat.lines.insertIdx (chat.lines.findIdx Line.isUtterance) header }

end Injection

def compareOne [Talkbank] [ChatFormat] [UnicodeCase] [Float64] (input : CompareInput) :
    BAResult CompareOutput := do
  let mainAst ← parseTranscript "main" input.mainChat
  let goldAst ← parseTranscript "gold" input.goldChat
  let perUtt := comparePerUtt mainAst goldAst
  let summary := summarize perUtt
  let metrics := buildCompareMetrics perUtt summary input.sourceId
  let annotated ← injectPerUttTiers mainAst perUtt
  let annotated := injectSummaryHeader annotated summary
  return {
    sourceId := input.sourceId
    annotatedMain := ChatFormat.toChat annotated
    metricsJson := summaryJson summary
    metrics := metrics }

end Batchalign.Compare
