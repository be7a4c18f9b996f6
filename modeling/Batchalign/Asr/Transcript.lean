import Batchalign.Asr.Process
import Batchalign.Runners.UtSeg

/-!
# From utterances to a CHAT document

`batchalign-core/src/asr/chat`: the utterances become a description of a transcript, in which
the gate has accepted every word, and `build_chat` makes a document of it. How a `%wor` tier is
made of a main tier is a parameter.
-/

namespace Batchalign.Asr

open Batchalign.Chat Batchalign.Runners

section Description

variable [ChatGrammar]

structure WordDesc where
  text : ChatWordText
  startMs : Option ℕ
  endMs : Option ℕ
  kind : WordKind

structure UtteranceDesc where
  speaker : String
  words : Option (List WordDesc)
  text : Option String
  startMs : Option ℕ
  endMs : Option ℕ
  lang : Option String

structure ParticipantDesc where
  id : String
  name : Option String
  role : String
  corpus : String
deriving DecidableEq, Repr

structure TranscriptDescription where
  langs : List String
  participants : List ParticipantDesc
  mediaName : Option String
  mediaType : Option String
  utterances : List UtteranceDesc
  writeWor : Bool

inductive TranscriptBuildError where
  | invalidLanguage (language source : String)
  | wordFailedValidation (uttIdx wordIdx : ℕ) (speakerId wordText lang : String)
      (parseErrors : ParseErrors)
deriving DecidableEq, Repr

end Description

section Bridge

def resolveSpeakerId (speaker : ℕ) (participantIds : List String) : String :=
  participantIds.getD speaker s!"SP{speaker}"

def roleForSpeakerCode (code : String) : String :=
  (([("INV", "Investigator"), ("CHI", "Target_Child"), ("MOT", "Mother"), ("FAT", "Father"),
    ("EXP", "Experimenter"), ("OBS", "Observer"), ("TEA", "Teacher")] :
      List (String × String)).lookup code).getD "Participant"

def buildAsrParticipants (utterances : List Utterance) (participantIds : List String) :
    List ParticipantDesc :=
  ((utterances.map Utterance.speaker).dedup.mergeSort).map fun speaker =>
    let id := resolveSpeakerId speaker participantIds
    { id := id, name := none, role := roleForSpeakerCode id, corpus := "" }

section Gate

variable [ChatGrammar]

def fallbackOrFailWord (word : AsrWord) (speakerId uttLang : String) (uttIdx wordIdx : ℕ) :
    Except TranscriptBuildError ChatWordText :=
  (ChatWordText.tryFrom word.text).mapError fun parseErrors =>
    .wordFailedValidation uttIdx wordIdx speakerId word.text uttLang parseErrors

/-- A word that breaks a rule of its language passes. -/
def gateWord (word : AsrWord) (speakerId uttLang : String) (uttIdx wordIdx : ℕ) :
    Except TranscriptBuildError ChatWordText :=
  match ChatWordText.tryFromLang word.text uttLang with
  | .ok text => .ok text
  | .error _ => fallbackOrFailWord word speakerId uttLang uttIdx wordIdx

def validateAsrWord (word : AsrWord) (speakerId uttLang : String) (uttIdx wordIdx : ℕ) :
    Except TranscriptBuildError WordDesc := do
  let text ← gateWord word speakerId uttLang uttIdx wordIdx
  return { text := text
           startMs := word.startMs.map asU64
           endMs := word.endMs.map asU64
           kind := word.kind }

end Gate

variable [ChatBuilder]

def languageCode (language : String) : Except TranscriptBuildError String :=
  (ChatBuilder.languageCode language).mapError (.invalidLanguage language)

/-- The language of an utterance, or the primary one. -/
def utteranceLanguage (primary : String) : Option String → Except TranscriptBuildError String
  | some language => languageCode language
  | none => .ok primary

variable [ChatGrammar]

def describeUtterance (participantIds : List String) (primary : String) (utterance : Utterance)
    (uttIdx : ℕ) : Except TranscriptBuildError UtteranceDesc := do
  let speakerId := resolveSpeakerId utterance.speaker participantIds
  let uttLang ← utteranceLanguage primary utterance.lang
  let words ← utterance.words.zipIdx.mapM fun (word, wordIdx) =>
    validateAsrWord word speakerId uttLang uttIdx wordIdx
  return { speaker := speakerId, words := some words, text := none, startMs := none,
           endMs := none, lang := utterance.lang }

def transcriptFromAsrUtterances (utterances : List Utterance) (participantIds langs : List String)
    (mediaName : Option String) (writeWor : Bool) :
    Except TranscriptBuildError TranscriptDescription := do
  let primary ← languageCode (langs.headD "eng")
  let descs ← utterances.zipIdx.mapM fun (utterance, uttIdx) =>
    describeUtterance participantIds primary utterance uttIdx
  return { langs := if langs.isEmpty then ["eng"] else langs
           participants := buildAsrParticipants utterances participantIds
           mediaName := mediaName
           mediaType := some "audio"
           utterances := descs
           writeWor := writeWor }

end Bridge

section Words

/-- The `%wor` tier of a main tier. -/
class WorGenerator where
  generateWorTier : MainTier → WorTier

variable [ChatGrammar]

def tagMarkerSeparator (text : String) : Option UtteranceContent :=
  if [",", "„", "‡"].contains text then some (.separator text) else none

/-- A text that does not parse is kept unchecked. -/
def parseAsrWord (text : String) : Word :=
  (ChatGrammar.parseWordFragment text).1.getD (Word.simple text)

/-- The content built so far, and the times of the first and the last timed word. -/
structure BuildState where
  content : List UtteranceContent
  uttStartMs : Option ℕ
  uttEndMs : Option ℕ
  hasTiming : Bool

def BuildState.initial : BuildState where
  content := []
  uttStartMs := none
  uttEndMs := none
  hasTiming := false

def parseAndTimeWord (word : WordDesc) (state : BuildState) : Word × BuildState :=
  let parsed := parseAsrWord (trim word.text.text)
  match word.startMs, word.endMs with
  | some start, some stop =>
      (parsed.withInlineBullet (Bullet.new start stop),
        { state with uttStartMs := some (state.uttStartMs.getD start), uttEndMs := some stop,
                     hasTiming := true })
  | _, _ => (parsed, state)

def parseRun : List WordDesc → BuildState → List Word × BuildState
  | [], state => ([], state)
  | word :: words, state =>
      if (trim word.text.text).isEmpty then parseRun words state
      else
        let (parsed, state) := parseAndTimeWord word state
        let (rest, state) := parseRun words state
        (parsed :: rest, state)

/-- Copies of one word get a bracket each, a phrase gets one. -/
def retraceContent : List Word → List UtteranceContent
  | [] => []
  | first :: rest =>
      if rest.all fun word => eqIgnoreAsciiCase word.cleanedText first.cleanedText then
        (first :: rest).map fun word => .retrace [.word word]
      else [.retrace ((first :: rest).map .word)]

def pushRetraceRun (run : List WordDesc) (state : BuildState) : BuildState :=
  let (parsed, state) := parseRun run state
  { state with content := state.content ++ retraceContent parsed }

def WordDesc.isRetrace (word : WordDesc) : Bool := word.kind == .retrace

def BuildState.push (state : BuildState) (content : UtteranceContent) : BuildState :=
  { state with content := state.content ++ [content] }

/-- One pass of the loop over a word that opens no run. -/
def pushWord (word : WordDesc) (state : BuildState) : BuildState :=
  let (parsed, state) := parseAndTimeWord word state
  state.push (.word parsed)

/-- The loop over the words. The counter skips the rest of a run. -/
def pushWords : ℕ → List WordDesc → BuildState → BuildState
  | _, [], state => state
  | skip + 1, _ :: words, state => pushWords skip words state
  | 0, word :: words, state =>
      let text := trim word.text.text
      if text.isEmpty || ChatGrammar.isChatTerminator text then pushWords 0 words state
      else match tagMarkerSeparator text with
        | some separator => pushWords 0 words (state.push separator)
        | none =>
            if word.isRetrace then
              let run := words.takeWhile WordDesc.isRetrace
              pushWords run.length words (pushRetraceRun (word :: run) state)
            else pushWords 0 words (pushWord word state)

def lastTerminator (words : List WordDesc) : Terminator :=
  (ChatGrammar.tryFromChatStr ((words.getLast?.map fun word => word.text.text).getD ".")).getD
    .period

variable [WorGenerator]

def buildWordUtterance (speaker : String) (words : List WordDesc) (writeWor : Bool)
    (fallbackStartMs fallbackEndMs : Option ℕ) : Option Chat.Utterance :=
  let state := pushWords 0 words .initial
  if state.content.isEmpty then none
  else
    let main := MainTier.new speaker state.content (lastTerminator words)
    let bullet := match state.uttStartMs.or fallbackStartMs, state.uttEndMs.or fallbackEndMs with
      | some start, some stop => some (Bullet.new start stop)
      | _, _ => none
    let utterance := (Chat.Utterance.new main).withBullet bullet
    some { utterance with
      dependentTiers :=
        if writeWor && state.hasTiming then [.wor (WorGenerator.generateWorTier utterance.main)]
        else [] }

end Words

section Documents

variable [ChatGrammar] [ChatBuilder] [WorGenerator]

def applyUtteranceLanguageOverride (utterance : Chat.Utterance) (lang : Option String)
    (primary : String) : Except String Chat.Utterance :=
  match lang with
  | some lang =>
      if lang = primary then .ok utterance
      else do
        let code ← (ChatBuilder.languageCode lang).mapError fun error =>
          s!"invalid utterance language: {error}"
        return { utterance with main := { utterance.main with
          content := { utterance.main.content with languageCode := some code } } }
  | none => .ok utterance

def textRow (desc : UtteranceDesc) (text : String) : NewUtterance where
  speaker := desc.speaker
  text := text
  bullet := do return (← desc.startMs, ← desc.endMs)
  words := []

def buildUtteranceLine (desc : TranscriptDescription) (langs : List String) (primary : String)
    (utterance : UtteranceDesc) : Except String (Option Line) := do
  match utterance.words.getD [] with
  | [] =>
      match utterance.text with
      | none => return none
      | some text =>
          let built ← buildTextUtterance langs (textRow utterance text)
          return built.map .utterance
  | word :: words =>
      match buildWordUtterance utterance.speaker (word :: words) desc.writeWor utterance.startMs
          utterance.endMs with
      | none => return none
      | some built =>
          let built ← applyUtteranceLanguageOverride built utterance.lang primary
          return some (.utterance built)

def descCorpus (participant : ParticipantDesc) : String :=
  if participant.corpus.isEmpty then "corpus_name" else participant.corpus

def descIdHeader (lang : String) (participant : ParticipantDesc) : IdHeader :=
  ⟨lang, some (descCorpus participant), participant.id, participant.role⟩

def buildMediaHeader (desc : TranscriptDescription) : Except String (List Line) :=
  match desc.mediaName with
  | none => .ok []
  | some mediaName => do
      let fileName ← (ChatBuilder.mediaFilename (normalizeMediaName mediaName)).mapError
        fun error => s!"invalid media filename: {error}"
      let type := mediaTypeName mediaName desc.mediaType
      return [.header (.other s!"@Media:\t{fileName}, {type}")]

def buildDescHeaderLines (desc : TranscriptDescription) (langs : List String) :
    Except String (List Line) := do
  let languageCodes ← (langs.mapM ChatBuilder.languageCode).mapError fun error =>
    s!"invalid transcript language: {error}"
  let media ← buildMediaHeader desc
  let spoken := ", ".intercalate languageCodes
  return [.header (.other "@UTF8"), .header (.other "@Begin"),
      .header (.other s!"@Languages:\t{spoken}"),
      .header (.participants (desc.participants.map fun participant =>
        ⟨participant.id, participant.name, participant.role⟩))] ++
    desc.participants.map (fun participant =>
      .header (.id (descIdHeader (languageCodes.headD "") participant))) ++ media

def descParticipants (lang : String) (participants : List ParticipantDesc) : Participants :=
  participants.foldl (fun declared participant =>
    declared.insert participant.id ⟨participant.id, participant.name, participant.role,
      descIdHeader lang participant⟩) ⟨[], List.nodup_nil⟩

/-- `build_chat`. -/
def buildChatFromDesc (desc : TranscriptDescription) : Except String ChatFile := do
  if desc.participants.isEmpty then throw "At least one participant is required"
  let langs := if desc.langs.isEmpty then ["eng"] else desc.langs
  let primary := langs.headD "eng"
  let headers ← buildDescHeaderLines desc langs
  let lines ← desc.utterances.mapM (buildUtteranceLine desc langs primary)
  let lang ← (ChatBuilder.languageCode primary).mapError fun error =>
    s!"invalid transcript language: {error}"
  return { participants := descParticipants lang desc.participants
           lines := headers ++ lines.reduceOption ++ [.header (.other "@End")] }

end Documents

end Batchalign.Asr
