import Batchalign.Cli.Common
import Batchalign.Values

/-!
# Outcomes on disk

What `PyOutcome::write` does with the value it holds: the timing of words is taken out if it is
not wanted, and each part of the value goes to a path derived from that of the whole.
-/

namespace Batchalign

open Batchalign.Chat Batchalign.Cli Batchalign.Compare

section Timing

def Chat.Word.withoutTiming (word : Word) : Word := { word with inlineBullet := none }

mutual

/-- The walk over the words of an item, which takes their timing out. -/
def stripItem : UtteranceContent → UtteranceContent
  | .word word => .word word.withoutTiming
  | .replacedWord word replacement =>
      .replacedWord word.withoutTiming (replacement.map Word.withoutTiming)
  | .group content => .group (stripItems content)
  | .retrace content => .retrace (stripItems content)
  | .separator text => .separator text
  | .other text => .other text

def stripItems : List UtteranceContent → List UtteranceContent
  | [] => []
  | item :: items => stripItem item :: stripItems items

end

def stripUtteranceTiming (utt : Utterance) : Utterance where
  main :=
    { utt.main with content := { utt.main.content with content := stripItems utt.items } }
  dependentTiers := utt.dependentTiers.filter fun tier => !tier.isWor

def stripLineTiming : Line → Line
  | .utterance utt => .utterance (stripUtteranceTiming utt)
  | line => line

/-- `strip_word_timing_from_chat`. -/
def stripWordTimingFromChat (chat : Chat) : Chat :=
  { chat with ast := { chat.ast with lines := chat.ast.lines.map stripLineTiming } }

/-- `strip_word_timing_from_value`. Only the transcript of a pair is written. -/
def stripWordTimingFromValue : BAValue → BAValue
  | .chat document => .chat (stripWordTimingFromChat document)
  | .ai instruction document => .ai instruction (stripWordTimingFromChat document)
  | .paired pair => .paired { pair with main := stripWordTimingFromChat pair.main }
  | .cons head tail => .cons (stripWordTimingFromValue head) (stripWordTimingFromValue tail)
  | .failed sourceId error (some partialValue) =>
      .failed sourceId error (some (stripWordTimingFromValue partialValue))
  | value => value

mutual

theorem stripItem_idem : (item : UtteranceContent) → stripItem (stripItem item) = stripItem item
  | .word _ | .separator _ | .other _ => rfl
  | .replacedWord word replacement => by
      simp [stripItem, Word.withoutTiming, Function.comp_def]
  | .group content => by simp [stripItem, stripItems_idem content]
  | .retrace content => by simp [stripItem, stripItems_idem content]

theorem stripItems_idem : (items : List UtteranceContent) →
    stripItems (stripItems items) = stripItems items
  | [] => rfl
  | item :: items => by simp [stripItems, stripItem_idem item, stripItems_idem items]

end

end Timing

section Writing

/-- What a file holds. The bytes of tables and media are left out. -/
inductive Content where
  | text (text : String)
  | table (artifact : MetricsArtifact)
  | media (output : MediaOutput)

/-- `with_extension`, for a path whose name has an extension. -/
def Cli.PurePath.withExtension (path : PurePath) (extension : String) :
    PurePath :=
  { path with parts := path.parts.dropLast ++ [path.stem ++ "." ++ extension] }

def metricsExtension : MetricsKind → String
  | .compare => "compare.csv"
  | .benchmark => "benchmark.csv"
  | .custom => "metrics.csv"

variable [ChatFormat]

/-- `validated_chat_text`: what is written has to parse again. -/
def validatedChatText (chat : Chat) : BAResult String :=
  let text := ChatFormat.toChat chat.ast
  ((parseChat text).mapError fun error => .serialize ("pre-serialization validation failed for " ++
    chat.sourceId ++ ": " ++ error.display)).map fun _ => text

/-- `BAValue::write`: the files, or why one of them cannot be made. -/
def BAValue.write (path : PurePath) : BAValue → BAResult (List (PurePath × Content))
  | .chat document | .ai _ document => do
      let text ← validatedChatText document
      .ok [(path, .text text)]
  | .paired pair => do
      let text ← validatedChatText pair.main
      .ok [(path, .text text)]
  | .metrics artifact =>
      .ok [(path.withExtension (metricsExtension artifact.kind), .table artifact)]
  | .media _ => .error (.internal "pipeline did not process media into a writable output")
  | .mediaOutput output => .ok [(path, .media output)]
  | .cons head tail => do
      let first ← head.write path
      let rest ← tail.write path
      .ok (first ++ rest)
  | .nil => .ok []
  | .failed _ error partialValue => do
      let log : PurePath × Content :=
        (path.withExtension "error.log", .text (error.display ++ "\n"))
      match partialValue with
      | none => .ok [log]
      | some value =>
          let rest ← value.write path
          .ok (log :: rest)

/-- `PyOutcome::write`. -/
def writeOutcome (value : BAValue) (path : PurePath) (stripWordTiming : Bool) :
    Except String (List (PurePath × Content)) :=
  let value := if stripWordTiming then stripWordTimingFromValue value else value
  (value.write path).mapError fun error => "write " ++ path.text ++ ": " ++ error.display

end Writing

end Batchalign
