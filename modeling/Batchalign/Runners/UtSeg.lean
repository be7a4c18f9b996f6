import Batchalign.Compare.Metrics
import Batchalign.Library.Fallible
import Batchalign.Segmentation.Conservation
import Batchalign.Segmentation.Rows
import Batchalign.Values

/-!
# The segmentation runner

`apply` of `taskrunners/utseg.rs`. While every answer keeps the words of its row, the rows
are split in place. As soon as one answer changes them, the whole transcript is rebuilt
from texts, with the text mode of `build_chat`.
-/

namespace Batchalign.Runners

open Batchalign.Chat Batchalign.Segmentation Fallible

section Payloads

structure UtteranceSpan where
  startMs : ℕ
  endMs : ℕ
  text : String
  words : List AsrWord
deriving DecidableEq, Repr

structure UtSegInput where
  sourceId : String
  segments : List AsrSegment
  language : LanguageSpec
  stanzaFallback : Bool
deriving DecidableEq, Repr

structure UtSegOutput where
  sourceId : String
  utterances : List UtteranceSpan
deriving DecidableEq, Repr

/-- A sub-utterance to emit, without its debugging data. -/
structure NewUtterance where
  speaker : String
  text : String
  bullet : Option (ℕ × ℕ)
  words : List AsrWord
deriving DecidableEq, Repr

def asSegment (row : UtteranceRow) : AsrSegment where
  startMs := row.startMs
  endMs := row.endMs
  text := row.text
  speaker := none
  words := row.words

def utSegInput (sourceId : String) (row : UtteranceRow) : UtSegInput where
  sourceId := sourceId
  segments := [asSegment row]
  language := .perFile
  stanzaFallback := false

/-- The groups of the words of a row. No group means that there were no spans, `none` that the
answer has other words. -/
def rowAssignments (row : UtteranceRow) (out : UtSegOutput) : Option (List ℕ) :=
  assignmentsFromSpans (row.words.map AsrWord.text)
    (out.utterances.map fun span => span.words.map AsrWord.text)

end Payloads

section InPlace

variable [Talkbank]

/-- The non-empty assignments under the index of their row. -/
def assignmentMap (rows : List UtteranceRow) (outputs : List UtSegOutput) :
    List (ℕ × List ℕ) :=
  (rows.zip outputs).zipIdx.filterMap fun ((row, out), idx) =>
    ((rowAssignments row out).filter (! ·.isEmpty)).map (idx, ·)

/-- The lines with the assigned utterances split; `ordinal` is the index of the next one. -/
def splitLines (assignments : List (ℕ × List ℕ)) : ℕ → List Line → List Line
  | _, [] => []
  | ordinal, .utterance utt :: lines =>
      (match assignments.lookup ordinal with
        | some groups => (splitUtterance utt groups).map .utterance
        | none => [.utterance utt]) ++ splitLines assignments (ordinal + 1) lines
  | ordinal, line :: lines => line :: splitLines assignments ordinal lines

def applyUtsegResults (chat : ChatFile) (assignments : List (ℕ × List ℕ)) : ChatFile :=
  if assignments.isEmpty then chat
  else { chat with lines := splitLines assignments 0 chat.lines }

end InPlace

section Rebuild

/-- The sub-utterances of one row; the row itself when there are no spans. -/
def collectSplit (row : UtteranceRow) (out : UtSegOutput) : List NewUtterance :=
  if out.utterances.isEmpty then
    let text := trim row.text
    if text.isEmpty then [] else [⟨row.speaker, s!"{text} .", none, row.words⟩]
  else
    out.utterances.filterMap fun span =>
      let text := trim span.text
      if text.isEmpty then none
      else
        let bullet := if span.startMs = 0 ∧ span.endMs = 0 then none
          else some (span.startMs, span.endMs)
        let terminated := text.toList.getLast?.any ['.', '?', '!'].contains
        some ⟨row.speaker, if terminated then text else s!"{text} .", bullet, span.words⟩

/-- The document a text is parsed in. -/
def miniChat (lang speaker text bullet : String) : String :=
  s!"@UTF8\n@Begin\n@Languages:\t{lang}\n@Participants:\t{speaker} Participant Participant\n" ++
    s!"@ID:\t{lang}|corpus_name|{speaker}|||||Participant|||\n*{speaker}:\t{text}{bullet}\n@End\n"

/-- What the rebuild takes from `talkbank_model` and `talkbank_transform`. A document with an
utterance line that parses has an utterance. -/
class ChatBuilder where
  languages : ChatFile → List String
  mediaHeader : ChatFile → Option (String × String)
  languageCode : String → Except String String
  mediaFilename : String → Except String String
  parseStrict : String → Except String ChatFile
  parseStrict_utterance {lang speaker text bullet : String} {parsed : ChatFile} :
    parseStrict (miniChat lang speaker text bullet) = .ok parsed → parsed.utterances ≠ []

variable [ChatBuilder]

def buildTextUtterance (langs : List String) (utt : NewUtterance) :
    Except String (Option Utterance) :=
  let text := trim utt.text
  if text.isEmpty then .ok none
  else
    let bullet := match utt.bullet with
      | some (start, stop) => s!" \x15{start}_{stop}\x15"
      | none => ""
    match ChatBuilder.parseStrict
        (miniChat (langs.headD "eng") utt.speaker text bullet) with
    | .error error =>
        .error s!"Failed to parse text utterance for speaker {utt.speaker}: {error}"
    | .ok parsed => .ok parsed.utterances.head?

def buildUtteranceLines (langs : List String) : List NewUtterance → Except String (List Line)
  | [] => .ok []
  | utt :: utts => do
      let built ← buildTextUtterance langs utt
      let lines ← buildUtteranceLines langs utts
      return built.toList.map .utterance ++ lines

def videoExtensions : List String := ["mp4", "mov", "m4v", "avi", "mpg", "mpeg"]

/-- `Path::extension` of a file name. -/
def fileExtension (name : String) : Option String :=
  let stem := Compare.fileStem name
  if stem = name then none else some (String.ofList (name.toList.drop (stem.length + 1)))

def inferMediaType (mediaName : String) : String :=
  match (Compare.fileName mediaName).bind fileExtension with
  | some extension =>
      if videoExtensions.contains (extension.map Char.toLower) then "video" else "audio"
  | none => "audio"

def normalizeMediaName (raw : String) : String :=
  match (Compare.fileName raw).map Compare.fileStem with
  | some stem => if stem.isEmpty then raw else stem
  | none => raw

def mediaTypeName (mediaName : String) : Option String → String
  | some "video" => "video"
  | some "audio" => "audio"
  | none => inferMediaType mediaName
  | some _ => "audio"

/-- The id header of a participant. -/
def idHeader (lang code : String) : IdHeader :=
  ⟨lang, some "batchalign", code, "Participant"⟩

def buildHeaderLines (langs codes : List String) (mediaName : String)
    (mediaType : Option String) : Except String (List Line) := do
  let languageCodes ← (langs.mapM ChatBuilder.languageCode).mapError fun error =>
    s!"invalid transcript language: {error}"
  let fileName ← (ChatBuilder.mediaFilename (normalizeMediaName mediaName)).mapError fun error =>
    s!"invalid media filename: {error}"
  let spoken := ", ".intercalate languageCodes
  let type := mediaTypeName mediaName mediaType
  return [.header (.other "@UTF8"), .header (.other "@Begin"),
      .header (.other s!"@Languages:\t{spoken}"),
      .header (.participants (codes.map fun code => ⟨code, none, "Participant"⟩))] ++
    codes.map (fun code => .header (.id (idHeader (languageCodes.headD "") code))) ++
    [.header (.other s!"@Media:\t{fileName}, {type}")]

/-- The speakers in order of first appearance. -/
def participantCodes (utts : List NewUtterance) : List String :=
  let codes := (utts.map NewUtterance.speaker).eraseDups
  if codes.isEmpty then ["PAR1"] else codes

def participantsOf (lang : String) (codes : List String) : Participants :=
  codes.foldl (fun participants code =>
    participants.insert code ⟨code, none, "Participant", idHeader lang code⟩) ⟨[], by simp⟩

/-- `build_chat` in its text mode. -/
def buildChat (langs : List String) (mediaName : String) (mediaType : Option String)
    (utts : List NewUtterance) : Except String ChatFile := do
  let codes := participantCodes utts
  let headers ← buildHeaderLines langs codes mediaName mediaType
  let lines ← buildUtteranceLines langs utts
  let lang ← (ChatBuilder.languageCode (langs.headD "eng")).mapError fun error =>
    s!"invalid transcript language: {error}"
  return { participants := participantsOf lang codes
           lines := headers ++ lines ++ [.header (.other "@End")] }

/-- The `%wor` tier of the words, in place of an old one, if one of them is timed. -/
def withWordTimings (src : NewUtterance) (utt : Utterance) : Utterance :=
  if src.words.any fun word => word.startMs < word.endMs then
    let words := src.words.map fun word =>
      if word.startMs < word.endMs then
        (Word.simple word.text).withInlineBullet (Bullet.new word.startMs word.endMs)
      else Word.simple word.text
    let wor := (WorTier.fromWords words).withTerminator utt.main.content.terminator
    { utt with
      dependentTiers := utt.dependentTiers.filter (! ·.isWor) ++ [.wor wor] }
  else utt

/-- The k-th utterance gets the times of the k-th sub-utterance. -/
def injectWordTimings : List NewUtterance → List Line → List Line
  | src :: utts, .utterance utt :: lines =>
      .utterance (withWordTimings src utt) :: injectWordTimings utts lines
  | utts, line :: lines => line :: injectWordTimings utts lines
  | _, [] => []

def buildChatFromUtterances (sourceId : String) (langs : List String) (mediaName : String)
    (mediaType : Option String) (utts : List NewUtterance) : BAResult Chat := do
  let langs := if langs.isEmpty then ["eng"] else langs
  let built ← (buildChat langs mediaName mediaType utts).mapError fun error =>
    .internal s!"build_chat: {error}"
  return { ast := { built with lines := injectWordTimings utts built.lines }
           sourceId := sourceId
           media := none }

end Rebuild

section Apply

variable [Talkbank] [ChatBuilder]

/-- The answers to the rows, or the error of a row. The rows are dispatched together and the
first error to arrive is returned; here it is that of the first row. -/
def dispatchRows (answers : ℕ → UtSegInput → BAResult UtSegOutput) (sourceId : String)
    (rows : List UtteranceRow) : BAResult (List UtSegOutput) :=
  rows.zipIdx.mapM fun (row, idx) => answers idx (utSegInput sourceId row)

/-- The rebuilt transcript. -/
def rebuildChat (chat : Chat) (rows : List UtteranceRow) (outputs : List UtSegOutput) :
    BAResult Chat := do
  let header := ChatBuilder.mediaHeader chat.ast
  let mediaName := ((header.map Prod.fst).or (chat.media.map MediaInput.path)).getD chat.sourceId
  let rebuilt ← buildChatFromUtterances chat.sourceId (ChatBuilder.languages chat.ast) mediaName
    (header.map Prod.snd) ((rows.zip outputs).flatMap fun (row, out) => collectSplit row out)
  return { rebuilt with media := chat.media }

/-- Some answer has other words than its row. -/
def rebuilds (rows : List UtteranceRow) (outputs : List UtSegOutput) : Bool :=
  (rows.zip outputs).any fun (row, out) => (rowAssignments row out).isNone

/-- The transcript with the answers. -/
def segmentChat (chat : Chat) (outputs : List UtSegOutput) : BAResult Chat :=
  let rows := collectUtteranceRows chat.ast
  if rebuilds rows outputs then rebuildChat chat rows outputs
  else .ok { chat with ast := applyUtsegResults chat.ast (assignmentMap rows outputs) }

def utSegChat (answers : ℕ → UtSegInput → BAResult UtSegOutput) (chat : Chat) : RunnerOutcome :=
  let started := RunnerEvent.stageStarted chat.sourceId .utSeg
  let rows := collectUtteranceRows chat.ast
  match dispatchRows answers chat.sourceId rows with
  | .error error => ⟨.error error, .chat chat, [started]⟩
  | .ok outputs =>
      let ticks := (List.range rows.length).map fun idx =>
        RunnerEvent.stageTick chat.sourceId .utSeg (idx + 1) rows.length
      match segmentChat chat outputs with
      | .error error => ⟨.error error, .chat chat, started :: ticks⟩
      | .ok segmented =>
          ⟨.ok (), .chat segmented,
            started :: ticks ++ [.stageInjected chat.sourceId .utSeg ""]⟩

def utSegRunner (answers : ℕ → UtSegInput → BAResult UtSegOutput) : Runner
  | .chat chat => utSegChat answers chat
  | .failed sourceId error partialValue => ⟨.ok (), .failed sourceId error partialValue, []⟩
  | other => ⟨.error (.internal s!"UtSegTaskRunner: expected BAValue::Chat, got {other.kind}"),
      other, []⟩

end Apply

section Blocks

theorem lookup_filterMap_zipIdx {α β : Type} (f : α → Option β) (xs : List α) (start idx : ℕ) :
    ((xs.zipIdx start).filterMap fun (x, i) => (f x).map (i, ·)).lookup (start + idx) =
      xs[idx]?.bind f := by
  induction xs generalizing start idx with
  | nil => rfl
  | cons x xs ih =>
      simp only [List.zipIdx_cons, List.filterMap_cons]
      cases idx with
      | zero =>
          cases found : f x with
          | some value => simp [found]
          | none =>
              simp only [Option.map_none, Nat.add_zero, List.getElem?_cons_zero,
                Option.bind_some, found]
              rw [List.lookup_eq_none_iff]
              intro entry member
              rcases List.mem_filterMap.mp member with ⟨⟨x', i⟩, indexed, isEntry⟩
              rcases Option.map_eq_some_iff.mp isEntry with ⟨value, _, rfl⟩
              have above := List.le_snd_of_mem_zipIdx indexed
              simp only [bne_iff_ne, ne_eq]
              omega
      | succ idx =>
          have shifted := ih (start + 1) idx
          rw [Nat.add_assoc, Nat.add_comm 1 idx] at shifted
          cases found : f x with
          | none =>
              simp only [Option.map_none, List.getElem?_cons_succ]
              exact shifted
          | some value =>
              have later : (start + (idx + 1) == start) = false := by
                rw [beq_eq_false_iff_ne]
                omega
              simp only [Option.map_some, List.lookup_cons, later, List.getElem?_cons_succ]
              exact shifted

variable [Talkbank]

/-- The utterances that an in-place split puts for a row. -/
def splitBlock (row : Utterance × UtSegOutput) : List Utterance :=
  match (rowAssignments (utteranceRow row.1) row.2).filter (! ·.isEmpty) with
  | some groups => splitUtterance row.1 groups
  | none => [row.1]

theorem splitLines_utterances (assignments : List (ℕ × List ℕ)) (ordinal : ℕ)
    (lines : List Line) :
    (splitLines assignments ordinal lines).filterMap Line.utterance? =
      ((lines.filterMap Line.utterance?).zipIdx ordinal).flatMap fun (utt, idx) =>
        match assignments.lookup idx with
        | some groups => splitUtterance utt groups
        | none => [utt] := by
  have unpack : ∀ utts : List Utterance,
      (utts.map Line.utterance).filterMap Line.utterance? = utts := by
    intro utts
    rw [List.filterMap_map]
    exact List.filterMap_some
  induction lines generalizing ordinal with
  | nil => rfl
  | cons line lines ih =>
      cases line with
      | utterance utt =>
          simp only [splitLines, List.filterMap_append, ih, List.filterMap_cons, Line.utterance?,
            List.zipIdx_cons, List.flatMap_cons]
          congr 1
          cases assignments.lookup ordinal with
          | none => rfl
          | some groups => exact unpack _
      | header header => exact ih ordinal
      | other text => exact ih ordinal

/-- Without assignments nothing is split. -/
theorem splitLines_nil (ordinal : ℕ) (lines : List Line) : splitLines [] ordinal lines = lines := by
  induction lines generalizing ordinal with
  | nil => rfl
  | cons line lines ih =>
      cases line with
      | utterance utt =>
          simp only [splitLines, List.lookup_nil, List.cons_append, List.nil_append, ih]
      | header header => simp only [splitLines, ih]
      | other text => simp only [splitLines, ih]

theorem applyUtsegResults_eq (chat : ChatFile) (assignments : List (ℕ × List ℕ)) :
    applyUtsegResults chat assignments =
      { chat with lines := splitLines assignments 0 chat.lines } := by
  cases assignments with
  | nil => rw [applyUtsegResults, splitLines_nil]; rfl
  | cons entry assignments => rfl

/-- An in-place split replaces every utterance by its block. -/
theorem applyUtsegResults_utterances {chat : ChatFile} {outputs : List UtSegOutput}
    (lengths : outputs.length = chat.utterances.length) :
    (applyUtsegResults chat (assignmentMap (collectUtteranceRows chat) outputs)).utterances =
      (chat.utterances.zip outputs).flatMap splitBlock := by
  rw [applyUtsegResults_eq, ChatFile.utterances, splitLines_utterances, ← ChatFile.utterances]
  rw [List.flatMap_def, List.flatMap_def]
  congr 1
  apply List.ext_getElem
  · simp [lengths]
  · intro idx bound bound'
    simp only [List.getElem_map, List.getElem_zipIdx, List.getElem_zip, Nat.zero_add, splitBlock]
    have inside : idx < chat.utterances.length := by simpa using bound
    have found := lookup_filterMap_zipIdx
      (fun entry : UtteranceRow × UtSegOutput =>
        (rowAssignments entry.1 entry.2).filter (! ·.isEmpty))
      ((collectUtteranceRows chat).zip outputs) 0 idx
    rw [Nat.zero_add] at found
    have row : ((collectUtteranceRows chat).zip outputs)[idx]? =
        some (utteranceRow chat.utterances[idx], outputs[idx]) := by
      rw [List.getElem?_eq_getElem (by simpa [collectUtteranceRows, lengths] using inside)]
      simp [collectUtteranceRows]
    rw [row, Option.bind_some] at found
    simp only [assignmentMap, found]

end Blocks

section RebuiltBlocks

theorem trim_isEmpty {text : String} {c : Char} (member : c ∈ text.toList)
    (visible : isWhitespace c = false) : (trim text).isEmpty = false := by
  have dropped : ∀ {chars : List Char}, c ∈ chars → c ∈ chars.dropWhile isWhitespace := by
    intro chars member
    have parts := List.takeWhile_append_dropWhile (p := isWhitespace) (l := chars)
    rw [← parts, List.mem_append] at member
    rcases member with blank | kept
    · rw [List.mem_takeWhile_imp blank] at visible
      cases visible
    · exact kept
  have kept : c ∈ (trim text).toList := by
    rw [trim, String.toList_ofList, List.rdropWhile, List.mem_reverse]
    apply dropped
    rw [List.mem_reverse]
    exact dropped member
  rw [Bool.eq_false_iff]
  intro empty
  rw [String.isEmpty_iff.mp empty] at kept
  simp at kept

/-- Every sub-utterance has a text. -/
theorem collectSplit_visible (row : UtteranceRow) (out : UtSegOutput) :
    ∀ src ∈ collectSplit row out, (trim src.text).isEmpty = false := by
  have period : ∀ text : String, (trim s!"{text} .").isEmpty = false := by
    intro text
    apply @trim_isEmpty _ '.'
    · rw [String.toList_append, List.mem_append]
      exact Or.inr (by decide)
    · decide
  intro src member
  simp only [collectSplit] at member
  split at member
  · split at member
    · simp at member
    · rw [List.mem_singleton.mp member]
      exact period _
  · rcases List.mem_filterMap.mp member with ⟨span, _, isSrc⟩
    split at isSrc
    · cases isSrc
    · rw [Option.some_inj] at isSrc
      subst isSrc
      simp only
      split
      · rename_i terminated
        rw [Option.any_eq_true] at terminated
        rcases terminated with ⟨c, last, mark⟩
        apply trim_isEmpty (List.mem_of_getLast? last)
        simp only [List.contains_eq_mem, decide_eq_true_eq, List.mem_cons, List.not_mem_nil,
          or_false] at mark
        rcases mark with rfl | rfl | rfl <;> decide
      · exact period _

theorem injectWordTimings_front (utts : List NewUtterance) {front : List Line}
    (noUtterance : ∀ line ∈ front, line.utterance? = none) (lines : List Line) :
    (injectWordTimings utts (front ++ lines)).filterMap Line.utterance? =
      (injectWordTimings utts lines).filterMap Line.utterance? := by
  induction front with
  | nil => rfl
  | cons line front ih =>
      have noUtterance := List.forall_mem_cons.mp noUtterance
      cases line with
      | utterance utt => cases noUtterance.1
      | header header => cases utts <;> exact ih noUtterance.2
      | other text => cases utts <;> exact ih noUtterance.2

variable [ChatBuilder]

/-- What a sub-utterance is parsed to. -/
def parsedText (langs : List String) (src : NewUtterance) : Option Utterance :=
  match buildTextUtterance langs src with
  | .ok built => built
  | .error _ => none

theorem buildTextUtterance_isSome {langs : List String} {src : NewUtterance}
    {built : Option Utterance} (visible : (trim src.text).isEmpty = false)
    (ok : buildTextUtterance langs src = .ok built) : ∃ utt, built = some utt := by
  simp only [buildTextUtterance, visible, Bool.false_eq_true, if_false] at ok
  split at ok
  · cases ok
  · rename_i parsed isParsed
    cases ok
    have nonempty := ChatBuilder.parseStrict_utterance isParsed
    exact ⟨_, List.head?_eq_some_head nonempty⟩

/-- Every sub-utterance gives the utterance it is parsed to, with its own times. -/
theorem injectWordTimings_built {langs : List String} {utts : List NewUtterance}
    {lines : List Line} (visible : ∀ src ∈ utts, (trim src.text).isEmpty = false)
    (ok : buildUtteranceLines langs utts = .ok lines) {back : List Line}
    (noUtterance : ∀ line ∈ back, line.utterance? = none) :
    (injectWordTimings utts (lines ++ back)).filterMap Line.utterance? =
      utts.filterMap fun src => (parsedText langs src).map (withWordTimings src) := by
  induction utts generalizing lines with
  | nil =>
      cases ok
      have nothing := injectWordTimings_front [] noUtterance []
      simpa [injectWordTimings] using nothing
  | cons src utts ih =>
      have visible := List.forall_mem_cons.mp visible
      rw [buildUtteranceLines] at ok
      rcases bind_eq_ok_iff.mp ok with ⟨built, isBuilt, ok⟩
      rcases bind_eq_ok_iff.mp ok with ⟨rest, isRest, ok⟩
      cases ok
      rcases buildTextUtterance_isSome visible.1 isBuilt with ⟨utt, rfl⟩
      have parsed : parsedText langs src = some utt := by
        rw [parsedText, isBuilt]
      simp only [List.filterMap_cons, parsed, Option.map_some]
      exact congrArg (withWordTimings src utt :: ·) (ih visible.2 isRest)

theorem buildHeaderLines_noUtterance {langs codes : List String} {mediaName : String}
    {mediaType : Option String} {lines : List Line}
    (ok : buildHeaderLines langs codes mediaName mediaType = .ok lines) :
    ∀ line ∈ lines, line.utterance? = none := by
  rw [buildHeaderLines] at ok
  rcases bind_eq_ok_iff.mp ok with ⟨languageCodes, _, ok⟩
  rcases bind_eq_ok_iff.mp ok with ⟨fileName, _, ok⟩
  cases ok
  intro line member
  simp only [List.mem_append, List.mem_cons, List.not_mem_nil, or_false, List.mem_map] at member
  rcases member with ((rfl | rfl | rfl | rfl) | ⟨code, _, rfl⟩) | rfl <;> rfl

theorem buildChat_lines {langs : List String} {mediaName : String} {mediaType : Option String}
    {utts : List NewUtterance} {built : ChatFile}
    (ok : buildChat langs mediaName mediaType utts = .ok built) :
    ∃ headers lines, (∀ line ∈ headers, line.utterance? = none) ∧
      buildUtteranceLines langs utts = .ok lines ∧
      built.lines = headers ++ (lines ++ [.header (.other "@End")]) := by
  rw [buildChat] at ok
  rcases bind_eq_ok_iff.mp ok with ⟨headers, isHeaders, ok⟩
  rcases bind_eq_ok_iff.mp ok with ⟨lines, isLines, ok⟩
  rcases bind_eq_ok_iff.mp ok with ⟨lang, _, ok⟩
  cases ok
  exact ⟨headers, lines, buildHeaderLines_noUtterance isHeaders, isLines,
    List.append_assoc _ _ _⟩

theorem buildChatFromUtterances_utterances {sourceId : String} {langs : List String}
    {mediaName : String} {mediaType : Option String} {utts : List NewUtterance} {rebuilt : Chat}
    (visible : ∀ src ∈ utts, (trim src.text).isEmpty = false)
    (ok : buildChatFromUtterances sourceId langs mediaName mediaType utts = .ok rebuilt) :
    rebuilt.ast.utterances = utts.filterMap fun src =>
      (parsedText (if langs.isEmpty then ["eng"] else langs) src).map (withWordTimings src) := by
  rw [buildChatFromUtterances] at ok
  rcases bind_eq_ok_iff.mp ok with ⟨built, isBuilt, ok⟩
  cases ok
  rcases buildChat_lines (mapError_eq_ok_iff.mp isBuilt) with
    ⟨headers, lines, noUtterance, isLines, parts⟩
  change (injectWordTimings utts built.lines).filterMap Line.utterance? = _
  rw [parts, injectWordTimings_front utts noUtterance]
  apply injectWordTimings_built visible isLines
  simp [Line.utterance?]

variable [Talkbank]

/-- The languages of the rebuilt transcript. -/
def rebuildLanguages (chat : Chat) : List String :=
  let langs := ChatBuilder.languages chat.ast
  if langs.isEmpty then ["eng"] else langs

/-- The utterances that a rebuild puts for a row. -/
def rebuildBlock (chat : Chat) (row : Utterance × UtSegOutput) : List Utterance :=
  (collectSplit (utteranceRow row.1) row.2).filterMap fun src =>
    (parsedText (rebuildLanguages chat) src).map (withWordTimings src)

/-- A rebuild that succeeds replaces every utterance by its block. -/
theorem rebuildChat_utterances {chat after : Chat} {outputs : List UtSegOutput}
    (ok : rebuildChat chat (collectUtteranceRows chat.ast) outputs = .ok after) :
    after.ast.utterances = (chat.ast.utterances.zip outputs).flatMap (rebuildBlock chat) := by
  have zipped : (collectUtteranceRows chat.ast).zip outputs =
      (chat.ast.utterances.zip outputs).map fun row => (utteranceRow row.1, row.2) := by
    rw [collectUtteranceRows, List.zip_map_left]
    rfl
  have visible : ∀ src ∈ ((collectUtteranceRows chat.ast).zip outputs).flatMap
      (fun row => collectSplit row.1 row.2), (trim src.text).isEmpty = false := by
    intro src member
    rcases List.mem_flatMap.mp member with ⟨row, _, isSplit⟩
    exact collectSplit_visible row.1 row.2 src isSplit
  rw [rebuildChat] at ok
  rcases bind_eq_ok_iff.mp ok with ⟨rebuilt, isBuilt, ok⟩
  cases ok
  refine (buildChatFromUtterances_utterances visible isBuilt).trans ?_
  rw [zipped, List.flatMap_map, List.filterMap_flatMap]
  rfl

end RebuiltBlocks

section Rows

theorem flatMap_rows {chat : Chat} {outputs : List UtSegOutput}
    (lengths : outputs.length = chat.ast.utterances.length) :
    (chat.ast.utterances.zip outputs).flatMap (fun row => [row.1]) = chat.ast.utterances := by
  rw [← List.map_eq_flatMap, List.map_fst_zip (le_of_eq lengths.symm)]

variable [Talkbank]

theorem splitBlock_of_no_spans {row : Utterance × UtSegOutput} (noSpans : row.2.utterances = []) :
    splitBlock row = [row.1] := by
  have none_assigned : (rowAssignments (utteranceRow row.1) row.2).filter (! ·.isEmpty) = none := by
    rw [rowAssignments, noSpans]
    rfl
  rw [splitBlock, none_assigned]

theorem rebuilds_eq_false_iff {chat : ChatFile} {outputs : List UtSegOutput} :
    rebuilds (collectUtteranceRows chat) outputs = false ↔
      ∀ row ∈ chat.utterances.zip outputs, rowAssignments (utteranceRow row.1) row.2 ≠ none := by
  rw [rebuilds, collectUtteranceRows, List.zip_map_left, List.any_map, List.any_eq_false]
  simp

variable [ChatBuilder]

/-- The utterances that the runner puts for each row. A rebuild that fails leaves the rows. -/
def rowBlocks (chat : Chat) (outputs : List UtSegOutput) : List (List Utterance) :=
  let rows := collectUtteranceRows chat.ast
  (chat.ast.utterances.zip outputs).map fun row =>
    if rebuilds rows outputs then
      match rebuildChat chat rows outputs with
      | .ok _ => rebuildBlock chat row
      | .error _ => [row.1]
    else splitBlock row

/-- The blocks make up the transcript that the runner leaves. -/
theorem segmentChat_utterances {chat : Chat} {outputs : List UtSegOutput}
    (lengths : outputs.length = chat.ast.utterances.length) :
    match segmentChat chat outputs with
    | .ok after => after.ast.utterances = (rowBlocks chat outputs).flatten
    | .error _ => chat.ast.utterances = (rowBlocks chat outputs).flatten := by
  simp only [segmentChat, rowBlocks, ← List.flatMap_def]
  by_cases rebuilt : rebuilds (collectUtteranceRows chat.ast) outputs = true
  · simp only [rebuilt, if_true]
    cases isRebuilt : rebuildChat chat (collectUtteranceRows chat.ast) outputs with
    | error error => exact (flatMap_rows lengths).symm
    | ok after => exact rebuildChat_utterances isRebuilt
  · simp only [rebuilt, Bool.false_eq_true, if_false]
    exact applyUtsegResults_utterances lengths

/-- Whether the blocks of the rows without spans are the rows. -/
theorem rowBlocks_keep_iff {chat : Chat} {outputs : List UtSegOutput} :
    (∀ row ∈ (chat.ast.utterances.zip outputs).zip (rowBlocks chat outputs),
        row.1.2.utterances = [] → row.2 = [row.1.1]) ↔
      (∀ row ∈ chat.ast.utterances.zip outputs,
        rowAssignments (utteranceRow row.1) row.2 ≠ none) ∨
      (∃ error, rebuildChat chat (collectUtteranceRows chat.ast) outputs = .error error) ∨
      ∀ row ∈ chat.ast.utterances.zip outputs,
        row.2.utterances = [] → rebuildBlock chat row = [row.1] := by
  rw [← rebuilds_eq_false_iff]
  simp only [rowBlocks, ← List.map_prod_left_eq_zip, List.forall_mem_map]
  by_cases rebuilt : rebuilds (collectUtteranceRows chat.ast) outputs = true
  · simp only [rebuilt, if_true]
    cases isRebuilt : rebuildChat chat (collectUtteranceRows chat.ast) outputs with
    | error error => simp
    | ok after => simp
  · rw [Bool.not_eq_true] at rebuilt
    simp only [rebuilt, Bool.false_eq_true, if_false, true_or, iff_true]
    intro row _ noSpans
    exact splitBlock_of_no_spans noSpans

/-- The rows without spans keep their utterances unless another answer forces a rebuild that
succeeds; then they keep them exactly when the rebuild of each gives the utterance back. -/
theorem utSegRunner_keeps_iff (answers : ℕ → UtSegInput → BAResult UtSegOutput) (chat : Chat) :
    match dispatchRows answers chat.sourceId (collectUtteranceRows chat.ast) with
    | .error _ => (utSegRunner answers (.chat chat)).value = .chat chat
    | .ok outputs =>
        (∃ after, (utSegRunner answers (.chat chat)).value = .chat after ∧
          after.ast.utterances = (rowBlocks chat outputs).flatten) ∧
        ((∀ row ∈ (chat.ast.utterances.zip outputs).zip (rowBlocks chat outputs),
            row.1.2.utterances = [] → row.2 = [row.1.1]) ↔
          (∀ row ∈ chat.ast.utterances.zip outputs,
            rowAssignments (utteranceRow row.1) row.2 ≠ none) ∨
          (∃ error, rebuildChat chat (collectUtteranceRows chat.ast) outputs = .error error) ∨
          ∀ row ∈ chat.ast.utterances.zip outputs,
            row.2.utterances = [] → rebuildBlock chat row = [row.1]) := by
  cases dispatched : dispatchRows answers chat.sourceId (collectUtteranceRows chat.ast) with
  | error error => simp [utSegRunner, utSegChat, dispatched]
  | ok outputs =>
      have lengths : outputs.length = chat.ast.utterances.length := by
        refine (length_of_mapM_ok dispatched).trans ?_
        simp [collectUtteranceRows]
      refine ⟨?_, rowBlocks_keep_iff⟩
      have blocks := segmentChat_utterances lengths
      simp only [utSegRunner, utSegChat, dispatched]
      cases segmented : segmentChat chat outputs with
      | error error =>
          rw [segmented] at blocks
          exact ⟨chat, rfl, blocks⟩
      | ok after =>
          rw [segmented] at blocks
          exact ⟨after, rfl, blocks⟩

end Rows

section Instances

open Documented

def plainTerminator : String → Option Terminator
  | "." => some .period
  | "?" => some .question
  | "!" => some .exclamation
  | _ => none

/-- The main tier of words and a terminator. -/
def parsePlainLine (line : String) : Option Utterance :=
  match splitAt '\t' line with
  | [speaker, content] =>
      let words := splitWhitespace content
      ((words.getLast?).bind plainTerminator).map fun terminator =>
        .new (.new (String.ofList speaker.toList.tail.dropLast)
          (words.dropLast.map fun word => .word (Word.simple word)) terminator)
  | _ => none

/-- A parser for documents with one such tier. -/
instance plainBuilder : ChatBuilder where
  languages _ := ["eng"]
  mediaHeader _ := none
  languageCode code := .ok code
  mediaFilename name := .ok name
  parseStrict text :=
    match ((splitAt '\n' text).find? fun line => line.toList.head? = some '*').bind
        parsePlainLine with
    | some utt => .ok ⟨⟨[], by simp⟩, [.utterance utt]⟩
    | none => .error "not a plain utterance"
  parseStrict_utterance ok := by
    split at ok
    · cases ok
      simp [ChatFile.utterances, Line.utterance?]
    · cases ok

/-- A timed turn and one that the segmenter joins into one word. -/
def bilingualTalk : Chat where
  ast :=
    { participants := ⟨[], by simp⟩
      lines :=
        [.utterance ((Utterance.new (.new "PAR0" [.word (Word.simple "hello")] .period)).withBullet
            (some (.new 0 500))),
          .utterance (.new (.new "PAR0"
            [.word (Word.simple "ni"), .word (Word.simple "hao")] .period))] }
  sourceId := "talk"
  media := none

/-- No spans for the first row, other words for the second. -/
def joiningAnswers : ℕ → UtSegInput → BAResult UtSegOutput
  | 0, input => .ok ⟨input.sourceId, []⟩
  | _, input => .ok ⟨input.sourceId, [⟨0, 0, "nihao", [⟨"nihao", 0, 0, none⟩]⟩]⟩

/-- The second answer costs the first turn its bullet. -/
theorem utSegRunner_drops_bullet :
    bilingualTalk.ast.utterances.map Utterance.bullet = [some (.new 0 500), none] ∧
      ∃ after, (utSegRunner joiningAnswers (.chat bilingualTalk)).value = .chat after ∧
        after.ast.utterances.map Utterance.bullet = [none, none] ∧
        ∀ utt ∈ bilingualTalk.ast.utterances, utt.bullet.isSome → utt ∉ after.ast.utterances := by
  have bullets : (utSegRunner joiningAnswers (.chat bilingualTalk)).value.chat?.map
      (fun after => after.ast.utterances.map Utterance.bullet) = some [none, none] := by
    decide +kernel
  rcases Option.map_eq_some_iff.mp bullets with ⟨after, isAfter, bullets⟩
  refine ⟨by decide, after, BAValue.eq_of_chat? isAfter, bullets, ?_⟩
  intro utt _ timed kept
  have untimed : utt.bullet ∈ after.ast.utterances.map Utterance.bullet :=
    List.mem_map_of_mem kept
  rw [bullets] at untimed
  simp only [List.mem_cons, List.not_mem_nil, or_false, or_self] at untimed
  rw [untimed] at timed
  cases timed

end Instances

end Batchalign.Runners
