import Batchalign.Runners.Surroundings

/-!
# The morphosyntax runner

`apply` of `taskrunners/morphosyntax.rs`. Every utterance without a `%mor` tier is sent to
the backend, then `%mor` and `%gra` are built and written utterance by utterance. Tiers that
do not fit their main tier are skipped, but an analysis whose chunks and relations do not fit
each other fails the file.
-/

namespace Batchalign.Runners

open Batchalign.Chat InPlaceLoop

section Payloads

structure MorphosyntaxUnit where
  pos : String
  lemmaText : String
  features : List String
  index : ℕ
  head : ℕ
  deprel : String
deriving DecidableEq, Repr

structure MorphosyntaxToken where
  text : String
  units : List MorphosyntaxUnit
deriving DecidableEq, Repr

structure GraTerminator where
  index : ℕ
  head : ℕ
  deprel : String
deriving DecidableEq, Repr

structure MorphosyntaxInput where
  sourceId : String
  utteranceId : ℕ
  language : LanguageSpec
  tokens : List String
  retokenize : Bool
  text : String
deriving DecidableEq, Repr

structure MorphosyntaxOutput where
  sourceId : String
  utteranceId : ℕ
  tokens : List MorphosyntaxToken
  terminator : Option GraTerminator
deriving DecidableEq, Repr

end Payloads

section Tiers

structure MorWord where
  pos : String
  stem : String
  features : List String
deriving DecidableEq, Repr

structure Mor where
  main : MorWord
  postClitics : List MorWord
deriving DecidableEq, Repr

structure GrammaticalRelation where
  index : ℕ
  head : ℕ
  relation : String
deriving DecidableEq, Repr

structure MorGraTerminatorSlot where
  terminator : Terminator
  relation : GrammaticalRelation
deriving DecidableEq, Repr

/-- What the runner takes from `talkbank_model` and `talkbank_transform`. Tiers are given by
their written content. -/
class MorTiers where
  tryAlignMorGra : List Mor → List GrammaticalRelation → MorGraTerminatorSlot →
    Except String (String × String)
  /-- The codes of the errors of a `%mor` tier against its main tier. -/
  alignMainToMor : MainTier → String → List String
  /-- The extracted word with this index is not in the language of its utterance. -/
  switchesLanguage : List UtteranceContent → ℕ → Bool

def buildMorWord (unit : MorphosyntaxUnit) : MorWord where
  pos := unit.pos
  stem := unit.lemmaText
  features := unit.features.filter fun feature => feature ≠ ""

def buildRelation (unit : MorphosyntaxUnit) : GrammaticalRelation where
  index := unit.index
  head := unit.head
  relation := unit.deprel

/-- Nothing for a token without units. -/
def buildMor (token : MorphosyntaxToken) : Option (Mor × List GrammaticalRelation) :=
  match token.units with
  | [] => none
  | main :: clitics =>
      some (⟨buildMorWord main, clitics.map buildMorWord⟩, (main :: clitics).map buildRelation)

variable [MorTiers]

def buildTiers (out : MorphosyntaxOutput) (terminator : Terminator) :
    BAResult (Option (String × String)) :=
  let built := out.tokens.filterMap buildMor
  match out.terminator with
  | none => .ok none
  | some term =>
      if built.isEmpty then .ok none
      else
        let slot := ⟨terminator, ⟨term.index, term.head, term.deprel⟩⟩
        match MorTiers.tryAlignMorGra (built.map Prod.fst) (built.flatMap Prod.snd) slot with
        | .ok tiers => .ok (some tiers)
        | .error error => .error (.internal
            s!"mor/gra alignment failed (utterance {out.utteranceId}): {error}")

end Tiers

section Batch

def supportedStanzaCodes : List String :=
  ["afr", "ara", "bul", "cat", "ces", "cmn", "cym", "dan", "deu", "ell", "eng", "est", "eus",
    "fas", "fin", "fra", "gla", "gle", "glg", "heb", "hin", "hrv", "hun", "hye", "ind", "isl",
    "ita", "jpn", "kat", "kaz", "kor", "lat", "lav", "lit", "mlt", "nld", "nor", "pol", "por",
    "ron", "rus", "slk", "slv", "spa", "swe", "tam", "tel", "tha", "tur", "ukr", "urd", "vie",
    "yue", "zho"]

/-- The binary search of a sorted list. -/
def isStanzaSupported (language : String) : Bool := supportedStanzaCodes.contains language

def isMorTier : DependentTier → Bool
  | .mor _ => true
  | .userDefined label _ => label == "mor"
  | _ => false

def utteranceHasMorTier (utt : Utterance) : Bool := utt.dependentTiers.any isMorTier

def resolveUtteranceLanguage (utt : Utterance) (default : LanguageSpec) : LanguageSpec :=
  utt.main.content.languageCode.elim default .code

variable [Talkbank] [MorTiers]

/-- The words as the backend sees them, with a mark on switches of the language. -/
def markedText (items : List UtteranceContent) (tokens : List String) : String :=
  " ".intercalate (tokens.zipIdx.map fun (token, idx) =>
    if MorTiers.switchesLanguage items idx then s!"{token}@s" else token)

/-- `extract_input` in the message for the utterance. -/
def morphosyntaxInput (sourceId : String) (default : LanguageSpec) (utt : Utterance) (idx : ℕ) :
    MorphosyntaxInput :=
  let tokens := (Talkbank.collectUtteranceContent utt.items .mor).map ExtractedWord.text
  { sourceId := sourceId
    utteranceId := idx % 2 ^ 32
    language := resolveUtteranceLanguage utt default
    tokens := tokens
    retokenize := false
    text := markedText utt.items tokens }

variable [ChatBuilder]

/-- `MorphotagBatch::new`. -/
def morphotagBatch (chat : Chat) : BAResult (List MorphosyntaxInput) :=
  match (primaryLanguage chat).filter fun primary => !isStanzaSupported primary with
  | some primary =>
      let supported := ", ".intercalate supportedStanzaCodes
      .error (.validation (s!"morphotag: primary @Languages '{primary}' is not supported by " ++
        "Stanza. Fix the @Languages header to use a supported ISO-639-3 code and re-run. " ++
        s!"Supported codes: {supported}."))
  | none =>
      .ok ((chat.ast.utterances.zipIdx.filter fun row => !utteranceHasMorTier row.1).map
        fun row => morphosyntaxInput chat.sourceId (resolvePerFileLanguage chat) row.1 row.2)

/-- The answers under the index of their utterance. Up to 128 dispatches are under way, but
their results are taken in order. -/
def dispatchBatch (answers : ℕ → MorphosyntaxInput → BAResult MorphosyntaxOutput)
    (inputs : List MorphosyntaxInput) : BAResult (List (ℕ × MorphosyntaxOutput)) :=
  inputs.zipIdx.mapM fun (input, call) =>
    (answers call input).map fun output => (input.utteranceId, output)

/-- The batch is made and answered. -/
def analyses (answers : ℕ → MorphosyntaxInput → BAResult MorphosyntaxOutput) (chat : Chat) :
    BAResult (List (ℕ × MorphosyntaxOutput)) := do
  let inputs ← morphotagBatch chat
  dispatchBatch answers inputs

end Batch

section Injection

variable [MorTiers]

/-- The tiers of a numbered utterance, if it has an answer and they fit the main tier. A later
answer replaces an earlier one in the map. -/
def tiersFor (outputs : List (ℕ × MorphosyntaxOutput)) (row : Utterance × ℕ) :
    BAResult (Option (String × String)) :=
  match outputs.reverse.lookup row.2 with
  | none => .ok none
  | some out =>
      (buildTiers out (row.1.main.content.terminator.getD .period)).map fun candidate =>
        candidate.filter fun tiers => (MorTiers.alignMainToMor row.1.main tiers.1).isEmpty

def withTiers (utt : Utterance) : Option (String × String) → Utterance
  | none => utt
  | some (mor, gra) =>
      { utt with dependentTiers := utt.dependentTiers ++ [.mor mor, .gra gra] }

/-- The loop body. -/
def tagUtterance (outputs : List (ℕ × MorphosyntaxOutput)) (idx : ℕ) (utt : Utterance) :
    BAResult Utterance :=
  (tiersFor outputs (utt, idx)).map (withTiers utt)

/-- Without the statistics, which are only logged. -/
def injectMorGraTiersSelective (chat : ChatFile) (outputs : List (ℕ × MorphosyntaxOutput)) :
    BAResult Unit × ChatFile :=
  let injected := run (utterances.numbered (tagUtterance outputs)) 0 chat.lines
  (injected.1.map fun _ => (), { chat with lines := injected.2 })

end Injection

section Apply

variable [Talkbank] [MorTiers] [ChatBuilder] [ChatDetails]

structure ProcessedChat where
  result : BAResult Unit
  chat : Chat
  events : List RunnerEvent

/-- The ticks of a dispatch that fails are left out. -/
def processChat (answers : ℕ → MorphosyntaxInput → BAResult MorphosyntaxOutput) (chat : Chat) :
    ProcessedChat :=
  let started := RunnerEvent.stageStarted chat.sourceId Task.morphosyntax
  let done := RunnerEvent.stageInjected chat.sourceId Task.morphosyntax ""
  if ChatDetails.conversationAnalysis chat.ast then ⟨.ok (), chat, [started, done]⟩
  else match analyses answers chat with
    | .error error => ⟨.error error, chat, [started]⟩
    | .ok outputs =>
        let ticks := (List.range (outputs.length + 1)).map fun step =>
          scaledTick chat.sourceId Task.morphosyntax step outputs.length
        let injected := injectMorGraTiersSelective chat.ast outputs
        ⟨injected.1, { chat with ast := injected.2 },
          started :: ticks ++ (if injected.1.isOk then [done] else [])⟩

/-- The sides of a pair. -/
inductive PairSide where
  | main
  | gold
deriving DecidableEq, Repr

/-- Both sides of a pair are tagged, the main side first. A transcript alone is a main side. -/
def morphosyntaxRunner
    (answers : PairSide → ℕ → MorphosyntaxInput → BAResult MorphosyntaxOutput) : Runner
  | .chat chat =>
      let processed := processChat (answers .main) chat
      ⟨processed.result, .chat processed.chat, processed.events⟩
  | .paired pair =>
      let main := processChat (answers .main) pair.main
      match main.result with
      | .error error => ⟨.error error, .paired { pair with main := main.chat }, main.events⟩
      | .ok () =>
          let gold := processChat (answers .gold) pair.gold
          ⟨gold.result, .paired ⟨main.chat, gold.chat⟩, main.events ++ gold.events⟩
  | .failed sourceId error partialValue => ⟨.ok (), .failed sourceId error partialValue, []⟩
  | other =>
      ⟨.error (.internal
        s!"Morphosyntax expects BAValue::Chat or BAValue::Paired, got {other.kind}"), other, []⟩

end Apply

section Failures

/-- Tiers are appended, so they show. -/
theorem withTiers_eq_self_iff (utt : Utterance) (tiers : Option (String × String)) :
    withTiers utt tiers = utt ↔ tiers = none := by
  cases tiers with
  | none => exact ⟨fun _ => rfl, fun _ => rfl⟩
  | some tiers =>
      refine ⟨fun same => ?_, fun none_ => by cases none_⟩
      have lengths := congrArg (fun utt => utt.dependentTiers.length) same
      simp [withTiers] at lengths

theorem paired_eq_iff (pair : Paired) (main gold : Chat) :
    (⟨main, gold⟩ : Paired) = pair ↔ main = pair.main ∧ gold = pair.gold := by
  cases pair
  exact Paired.mk.injEq .. ▸ Iff.rfl

variable [MorTiers] {outputs : List (ℕ × MorphosyntaxOutput)}

theorem tagUtterance_isOk (idx : ℕ) (utt : Utterance) :
    (tagUtterance outputs idx utt).isOk = (tiersFor outputs (utt, idx)).isOk := by
  rw [tagUtterance]
  cases tiersFor outputs (utt, idx) <;> rfl

theorem tagUtterance_kept_iff (idx : ℕ) (utt : Utterance) :
    tagUtterance outputs idx utt = .ok utt ↔ tiersFor outputs (utt, idx) = .ok none := by
  rw [tagUtterance]
  cases tiersFor outputs (utt, idx) with
  | error error => exact ⟨fun fails => (by cases fails), fun fails => (by cases fails)⟩
  | ok tiers =>
      rw [Except.map, Except.ok.injEq, Except.ok.injEq]
      exact withTiers_eq_self_iff utt tiers

/-- Some utterance has an analysis that cannot be built. -/
def Rejects (outputs : List (ℕ × MorphosyntaxOutput)) (chat : Chat) : Prop :=
  ∃ row ∈ chat.ast.utterances.zipIdx, (tiersFor outputs row).isOk = false

/-- Some utterance before the first one of these gets its tiers. -/
def Tags (outputs : List (ℕ × MorphosyntaxOutput)) (chat : Chat) : Prop :=
  ∃ row ∈ chat.ast.utterances.zipIdx.takeWhile fun row => (tiersFor outputs row).isOk,
    tiersFor outputs row ≠ .ok none

theorem injectMorGra_isOk_iff (chat : Chat) :
    (injectMorGraTiersSelective chat.ast outputs).1.isOk = true ↔ ¬ Rejects outputs chat := by
  have ran := utterances.run_isOk_iff (tagUtterance outputs) chat.ast.lines
  simp only [tagUtterance_isOk] at ran
  have same : (injectMorGraTiersSelective chat.ast outputs).1.isOk =
      (run (utterances.numbered (tagUtterance outputs)) 0 chat.ast.lines).1.isOk := by
    simp only [injectMorGraTiersSelective]
    cases (run (utterances.numbered (tagUtterance outputs)) 0 chat.ast.lines).1 <;> rfl
  rw [same, ran, Rejects]
  simp only [not_exists, not_and, Bool.not_eq_false]
  rfl

theorem injectMorGra_kept_iff (chat : Chat) :
    (injectMorGraTiersSelective chat.ast outputs).2 = chat.ast ↔ ¬ Tags outputs chat := by
  have ran := utterances.run_kept_iff (tagUtterance outputs) chat.ast.lines
  simp only [passed, tagUtterance_isOk, tagUtterance_kept_iff] at ran
  have kept : (injectMorGraTiersSelective chat.ast outputs).2 = chat.ast ↔
      (run (utterances.numbered (tagUtterance outputs)) 0 chat.ast.lines).2 = chat.ast.lines := by
    constructor
    · intro same
      exact congrArg ChatFile.lines same
    · intro same
      simp only [injectMorGraTiersSelective, same]
  rw [kept, ran, Tags]
  simp only [not_exists, not_and, not_not]
  rfl

variable [Talkbank] [ChatBuilder] [ChatDetails]
  (answers : ℕ → MorphosyntaxInput → BAResult MorphosyntaxOutput)

/-- The language is not supported, a dispatch fails, or an analysis cannot be built. -/
def TaggingFails (chat : Chat) : Prop :=
  ChatDetails.conversationAnalysis chat.ast = false ∧
    ∀ outputs, analyses answers chat = .ok outputs → Rejects outputs chat

/-- Tiers are written. -/
def TaggingWrites (chat : Chat) : Prop :=
  ChatDetails.conversationAnalysis chat.ast = false ∧
    ∃ outputs, analyses answers chat = .ok outputs ∧ Tags outputs chat

theorem processChat_isOk_iff (chat : Chat) :
    (processChat answers chat).result.isOk = true ↔ ¬ TaggingFails answers chat := by
  cases isCa : ChatDetails.conversationAnalysis chat.ast with
  | true => simp [processChat, TaggingFails, isCa, Except.isOk, Except.toBool]
  | false =>
      cases answered : analyses answers chat with
      | error error =>
          simp [processChat, TaggingFails, isCa, answered, Except.isOk, Except.toBool]
      | ok outputs =>
          have injected := @injectMorGra_isOk_iff _ outputs chat
          simp only [processChat, isCa, Bool.false_eq_true, if_false, answered, injected,
            TaggingFails, true_and, Except.ok.injEq, forall_eq']

theorem processChat_kept_iff (chat : Chat) :
    (processChat answers chat).chat = chat ↔ ¬ TaggingWrites answers chat := by
  cases isCa : ChatDetails.conversationAnalysis chat.ast with
  | true => simp [processChat, TaggingWrites, isCa]
  | false =>
      cases answered : analyses answers chat with
      | error error => simp [processChat, TaggingWrites, isCa, answered]
      | ok outputs =>
          have kept := @injectMorGra_kept_iff _ outputs chat
          have sameChat : ({ chat with
              ast := (injectMorGraTiersSelective chat.ast outputs).2 } : Chat) = chat ↔
                (injectMorGraTiersSelective chat.ast outputs).2 = chat.ast := by
            rw [← chat_withAst_eq_iff]
            exact ⟨congrArg BAValue.chat, BAValue.chat.inj⟩
          simp only [processChat, isCa, Bool.false_eq_true, if_false, answered, sameChat, kept,
            TaggingWrites, true_and, Except.ok.injEq, exists_eq_left']

end Failures

section Keeps

variable [MorTiers] [Talkbank] [ChatBuilder] [ChatDetails]
  (answers : PairSide → ℕ → MorphosyntaxInput → BAResult MorphosyntaxOutput)

/-- Nothing is written on a side before a side fails. -/
def TaggingKeeps : BAValue → Prop
  | .chat chat => TaggingFails (answers .main) chat → ¬ TaggingWrites (answers .main) chat
  | .paired pair =>
      (TaggingFails (answers .main) pair.main → ¬ TaggingWrites (answers .main) pair.main) ∧
      (¬ TaggingFails (answers .main) pair.main → TaggingFails (answers .gold) pair.gold →
        ¬ TaggingWrites (answers .main) pair.main ∧ ¬ TaggingWrites (answers .gold) pair.gold)
  | _ => True

theorem morphosyntaxRunner_keeps_iff (value : BAValue) :
    KeepsValue (morphosyntaxRunner answers) value ↔ TaggingKeeps answers value := by
  cases value with
  | chat chat =>
      have isOk := processChat_isOk_iff (answers .main) chat
      have kept := processChat_kept_iff (answers .main) chat
      simp only [KeepsValue, morphosyntaxRunner, TaggingKeeps, BAValue.chat.injEq, kept]
      exact failing_iff isOk
  | paired pair =>
      have mainOk := processChat_isOk_iff (answers .main) pair.main
      have mainKept := processChat_kept_iff (answers .main) pair.main
      have goldOk := processChat_isOk_iff (answers .gold) pair.gold
      have goldKept := processChat_kept_iff (answers .gold) pair.gold
      rw [TaggingKeeps]
      cases ran : (processChat (answers .main) pair.main).result with
      | error error =>
          rw [ran] at mainOk
          have fails : TaggingFails (answers .main) pair.main := by
            by_contra succeeds
            cases mainOk.mpr succeeds
          simp only [KeepsValue, morphosyntaxRunner, ran, BAValue.paired.injEq, paired_eq_iff,
            mainKept, and_true, fails, forall_const, not_true_eq_false, false_imp_iff]
          exact ⟨fun keeps => keeps error rfl, fun keeps _ _ => keeps⟩
      | ok _ =>
          rw [ran] at mainOk
          have succeeds := mainOk.mp rfl
          simp only [KeepsValue, morphosyntaxRunner, ran, BAValue.paired.injEq, paired_eq_iff,
            mainKept, goldKept, succeeds, false_imp_iff, not_false_eq_true, forall_const, true_and]
          exact failing_iff goldOk
  | failed sourceId error partialValue =>
      refine ⟨fun _ => trivial, fun _ error fails => ?_⟩
      cases fails
  | _ => exact ⟨fun _ => trivial, fun _ _ _ => rfl⟩

end Keeps

end Batchalign.Runners
