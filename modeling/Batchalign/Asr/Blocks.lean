import Batchalign.Asr.Transcript

/-!
# What the builder makes of the words

The builder of an utterance leaves out terminators, turns tag markers into separators and puts
the words of a run in brackets. Here its content is a list of blocks that keep the descriptions
of their words, and its times are those of the first and the last timed word of the blocks.
-/

namespace Batchalign.Asr

open Batchalign.Chat Batchalign.Runners Fallible

section Content

def BuildState.withContent (state : BuildState) (content : List UtteranceContent) : BuildState :=
  { state with content := content }

@[simp]
theorem BuildState.withContent_content (state : BuildState) (content : List UtteranceContent) :
    (state.withContent content).content = content := rfl

@[simp]
theorem BuildState.withContent_withContent (state : BuildState)
    (first second : List UtteranceContent) :
    (state.withContent first).withContent second = state.withContent second := rfl

end Content

section Descriptions

theorem ok_of_mem_toOption {α ε : Type} {result : Except ε α} {value : α}
    (member : value ∈ result.toOption) : result = .ok value := by
  cases result with
  | ok other =>
      cases member
      rfl
  | error failure => cases member

variable [ChatGrammar]

theorem tryFrom_text {text : String} {accepted : ChatWordText}
    (ok : ChatWordText.tryFrom text = .ok accepted) : accepted.text = text := by
  unfold ChatWordText.tryFrom at ok
  split at ok
  · cases ok
    rfl
  · cases ok

theorem tryFromLang_text {text lang : String} {accepted : ChatWordText}
    (ok : ChatWordText.tryFromLang text lang = .ok accepted) : accepted.text = text := by
  unfold ChatWordText.tryFromLang at ok
  split at ok
  · cases ok
    rfl
  · split at ok
    · cases ok
      rfl
    · cases ok
  · cases ok

theorem gateWord_text {word : AsrWord} {speakerId uttLang : String} {uttIdx wordIdx : ℕ}
    {accepted : ChatWordText}
    (ok : gateWord word speakerId uttLang uttIdx wordIdx = .ok accepted) :
    accepted.text = word.text := by
  unfold gateWord at ok
  split at ok
  · rename_i text checked
    cases ok
    exact tryFromLang_text checked
  · unfold fallbackOrFailWord at ok
    cases checked : ChatWordText.tryFrom word.text with
    | error errors =>
        rw [checked] at ok
        cases ok
    | ok text =>
        rw [checked] at ok
        cases ok
        exact tryFrom_text checked

/-- What a description keeps of its word. -/
theorem validateAsrWord_keeps {word : AsrWord} {speakerId uttLang : String} {uttIdx wordIdx : ℕ}
    {desc : WordDesc} (ok : validateAsrWord word speakerId uttLang uttIdx wordIdx = .ok desc) :
    desc.text.text = word.text ∧ desc.startMs = word.startMs.map asU64 ∧
      desc.endMs = word.endMs.map asU64 ∧ desc.kind = word.kind := by
  rcases bind_eq_ok_iff.mp ok with ⟨text, gated, ok⟩
  cases ok
  exact ⟨gateWord_text gated, rfl, rfl, rfl⟩

/-- The descriptions of an utterance are those of its words, in their order. -/
theorem describeUtterance_words [ChatBuilder] {participantIds : List String} {primary : String}
    {utterance : Utterance} {uttIdx : ℕ} {desc : UtteranceDesc}
    (ok : describeUtterance participantIds primary utterance uttIdx = .ok desc) :
    (desc.words.getD []).map (fun desc => (desc.text.text, desc.startMs, desc.endMs, desc.kind)) =
      utterance.words.map fun word =>
        (word.text, word.startMs.map asU64, word.endMs.map asU64, word.kind) := by
  rcases bind_eq_ok_iff.mp ok with ⟨uttLang, _, ok⟩
  rcases bind_eq_ok_iff.mp ok with ⟨descs, described, ok⟩
  cases ok
  have original : (utterance.words.zipIdx.map fun item =>
      (item.1.text, item.1.startMs.map asU64, item.1.endMs.map asU64, item.1.kind)) =
      utterance.words.map fun word =>
        (word.text, word.startMs.map asU64, word.endMs.map asU64, word.kind) := by
    conv_rhs => rw [← List.zipIdx_map_fst 0 utterance.words, List.map_map]
    rfl
  rw [← original]
  apply map_of_mapM_ok (fun item desc valid => ?_) described
  rcases item with ⟨word, wordIdx⟩
  rcases validateAsrWord_keeps valid with ⟨text, startMs, endMs, kind⟩
  rw [text, startMs, endMs, kind]

end Descriptions

variable [ChatGrammar]

section Blocks

/-- A word, a separator, or a bracket around words. -/
inductive Block where
  | word (desc : WordDesc)
  | separator (text : String)
  | retrace (descs : List WordDesc)

/-- The parsed word with its bullet. -/
def timedWord (word : WordDesc) : Word :=
  match word.startMs, word.endMs with
  | some start, some stop =>
      (parseAsrWord (trim word.text.text)).withInlineBullet (Bullet.new start stop)
  | _, _ => parseAsrWord (trim word.text.text)

def Block.content : Block → UtteranceContent
  | word desc => .word (timedWord desc)
  | separator text => .separator text
  | retrace descs => .retrace (descs.map fun desc => .word (timedWord desc))

def Block.words : Block → List WordDesc
  | word desc => [desc]
  | separator _ => []
  | retrace descs => descs

def isBlank (word : WordDesc) : Bool := (trim word.text.text).isEmpty

/-- The words of a run are copies of one word. -/
def sameWord (words : List WordDesc) : Bool :=
  match words with
  | [] => true
  | first :: rest => rest.all fun word =>
      eqIgnoreAsciiCase (timedWord word).cleanedText (timedWord first).cleanedText

def bracketRun (run : List WordDesc) : List Block :=
  let words := run.filter (! isBlank ·)
  if sameWord words then words.map fun word => .retrace [word] else [.retrace words]

/-- The blocks of the words. The counter skips the rest of a run. -/
def bracketed : ℕ → List WordDesc → List Block
  | _, [] => []
  | skip + 1, _ :: words => bracketed skip words
  | 0, word :: words =>
      if isBlank word || ChatGrammar.isChatTerminator (trim word.text.text) then
        bracketed 0 words
      else if [",", "„", "‡"].contains (trim word.text.text) then
        .separator (trim word.text.text) :: bracketed 0 words
      else if word.isRetrace then
        let run := words.takeWhile WordDesc.isRetrace
        bracketRun (word :: run) ++ bracketed run.length words
      else .word word :: bracketed 0 words

/-- The times after some words. -/
def timeWords (words : List WordDesc) (state : BuildState) : BuildState :=
  words.foldl (fun state word => (parseAndTimeWord word state).2) state

theorem bracketed_skip (skip : ℕ) (words : List WordDesc) :
    bracketed skip words = bracketed 0 (words.drop skip) := by
  induction words generalizing skip with
  | nil => cases skip <;> rfl
  | cons word words ih =>
      cases skip with
      | zero => rfl
      | succ skip => exact ih skip

theorem drop_run (words : List WordDesc) :
    words.drop (words.takeWhile WordDesc.isRetrace).length =
      words.dropWhile WordDesc.isRetrace := by
  have parts := List.takeWhile_append_dropWhile (p := WordDesc.isRetrace) (l := words)
  have rest := congrArg (List.drop (words.takeWhile WordDesc.isRetrace).length) parts
  rw [List.drop_left] at rest
  exact rest.symm

theorem bracketed_run (words : List WordDesc) :
    bracketed (words.takeWhile WordDesc.isRetrace).length words =
      bracketed 0 (words.dropWhile WordDesc.isRetrace) := by
  rw [bracketed_skip, drop_run]

end Blocks

section Building

theorem parseAndTimeWord_eq (word : WordDesc) (state : BuildState) :
    parseAndTimeWord word state = (timedWord word, timeWords [word] state) := by
  have parsed : (parseAndTimeWord word state).1 = timedWord word := by
    unfold timedWord parseAndTimeWord
    cases word.startMs with
    | none => rfl
    | some start => cases word.endMs <;> rfl
  exact Prod.ext parsed rfl

theorem timeWords_append (left right : List WordDesc) (state : BuildState) :
    timeWords (left ++ right) state = timeWords right (timeWords left state) :=
  List.foldl_append

theorem timeWords_withContent (words : List WordDesc) (state : BuildState)
    (content : List UtteranceContent) :
    timeWords words (state.withContent content) = (timeWords words state).withContent content := by
  induction words generalizing state with
  | nil => rfl
  | cons word words ih =>
      have step : (parseAndTimeWord word (state.withContent content)).2 =
          (parseAndTimeWord word state).2.withContent content := by
        unfold parseAndTimeWord
        cases word.startMs with
        | none => rfl
        | some start => cases word.endMs <;> rfl
      change timeWords words (parseAndTimeWord word (state.withContent content)).2 = _
      rw [step, ih]
      rfl

theorem timeWords_keeps_content (words : List WordDesc) (state : BuildState) :
    (timeWords words state).content = state.content := by
  have same := timeWords_withContent words state state.content
  rw [show state.withContent state.content = state from rfl] at same
  rw [same]
  rfl

theorem parseRun_eq (run : List WordDesc) (state : BuildState) :
    parseRun run state = ((run.filter (! isBlank ·)).map timedWord,
      timeWords (run.filter (! isBlank ·)) state) := by
  induction run generalizing state with
  | nil => rfl
  | cons word run ih =>
      rw [parseRun]
      change (if isBlank word then _ else _) = _
      cases blank : isBlank word with
      | true =>
          rw [if_pos rfl, ih, List.filter_cons_of_neg (by simp [blank])]
      | false =>
          rw [if_neg Bool.false_ne_true, List.filter_cons_of_pos (by simp [blank]),
            parseAndTimeWord_eq]
          dsimp only
          rw [ih]
          rfl

theorem retraceContent_eq (words : List WordDesc) :
    retraceContent (words.map timedWord) =
      (if sameWord words then words.map fun word => Block.retrace [word]
        else [Block.retrace words]).map Block.content := by
  cases words with
  | nil => rfl
  | cons first rest =>
      have all : ((rest.map timedWord).all fun word =>
          eqIgnoreAsciiCase word.cleanedText (timedWord first).cleanedText) =
          sameWord (first :: rest) := by
        rw [List.all_map]
        rfl
      rw [List.map_cons, retraceContent, all]
      cases sameWord (first :: rest) with
      | true => simp [Block.content, Function.comp_def]
      | false => simp [Block.content]

theorem bracketRun_words (run : List WordDesc) :
    (bracketRun run).flatMap Block.words = run.filter (! isBlank ·) := by
  unfold bracketRun
  dsimp only
  split
  · rw [List.flatMap_map]
    simp [Block.words]
  · simp [Block.words]

/-- The state after the loop: the contents of the blocks, and the times of their words. -/
theorem pushWords_eq (skip : ℕ) (words : List WordDesc) (state : BuildState) :
    pushWords skip words state =
      (timeWords ((bracketed skip words).flatMap Block.words) state).withContent
        (state.content ++ (bracketed skip words).map Block.content) := by
  induction words generalizing skip state with
  | nil =>
      rw [pushWords, bracketed, List.map_nil, List.append_nil]
      rfl
  | cons word words ih =>
      cases skip with
      | succ skip => exact ih skip state
      | zero =>
          rw [pushWords, bracketed]
          change (if isBlank word || ChatGrammar.isChatTerminator (trim word.text.text) then _
            else _) = _
          by_cases skipped :
              (isBlank word || ChatGrammar.isChatTerminator (trim word.text.text)) = true
          · rw [if_pos skipped, if_pos skipped, ih]
          · rw [if_neg skipped, if_neg skipped]
            unfold tagMarkerSeparator
            by_cases tag : [",", "„", "‡"].contains (trim word.text.text) = true
            · rw [if_pos tag, if_pos tag]
              dsimp only
              have pushed : state.push (.separator (trim word.text.text)) =
                  state.withContent (state.content ++ [.separator (trim word.text.text)]) := rfl
              rw [pushed, ih, timeWords_withContent, BuildState.withContent_withContent,
                BuildState.withContent_content, List.append_assoc]
              rfl
            · rw [if_neg tag, if_neg tag]
              cases isRetrace : word.isRetrace with
              | true =>
                  have pushed (run : List WordDesc) : pushRetraceRun run state =
                      (timeWords ((bracketRun run).flatMap Block.words) state).withContent
                        (state.content ++ (bracketRun run).map Block.content) := by
                    rw [pushRetraceRun, parseRun_eq, bracketRun_words, bracketRun]
                    dsimp only
                    rw [timeWords_keeps_content, retraceContent_eq]
                    rfl
                  rw [if_pos rfl]
                  dsimp only
                  rw [if_pos rfl, pushed, ih, timeWords_withContent,
                    BuildState.withContent_withContent, BuildState.withContent_content,
                    List.flatMap_append, timeWords_append, List.map_append, List.append_assoc]
              | false =>
                  have pushed : pushWord word state = (timeWords [word] state).withContent
                      (state.content ++ [.word (timedWord word)]) := by
                    rw [pushWord, parseAndTimeWord_eq]
                    dsimp only
                    rw [BuildState.push, timeWords_keeps_content]
                    rfl
                  rw [if_neg Bool.false_ne_true]
                  dsimp only
                  rw [if_neg Bool.false_ne_true, pushed, ih, timeWords_withContent,
                    BuildState.withContent_withContent, BuildState.withContent_content,
                    List.flatMap_cons, timeWords_append, List.append_assoc]
                  rfl

end Building

end Batchalign.Asr
