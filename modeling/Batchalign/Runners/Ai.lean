import Batchalign.Compare.Basic
import Batchalign.Runners.Surroundings

/-!
# The runner for proposed edits

`apply` of `taskrunners/ai.rs`. The revisions of the answer are tried from the last
utterance to the first; one that does not parse is dropped.
-/

namespace Batchalign.Runners

open Batchalign.Chat Batchalign.Compare

section Payloads

structure AiUtterance where
  index : ℕ
  chat : String
  context : List String
deriving DecidableEq, Repr

structure AiInput where
  sourceId : String
  instruction : String
  utterances : List AiUtterance
deriving DecidableEq, Repr

structure AiRevision where
  index : ℕ
  chat : String
deriving DecidableEq, Repr

structure AiOutput where
  sourceId : String
  revisions : List AiRevision
deriving DecidableEq, Repr

end Payloads

section Revisions

def utteranceLineIndices (lines : List Line) : List ℕ :=
  lines.zipIdx.filterMap fun line => if line.1.isUtterance then some line.2 else none

def ensureTrailingNewline (text : String) : String :=
  let trimmed := trim text
  if trimmed.isEmpty then "" else trimmed ++ "\n"

/-- The revisions under their utterance, in the order of the answer. -/
def collectRevisions (utteranceCount : ℕ) :
    List (ℕ × String) → List AiRevision → BAResult (List (ℕ × String))
  | revisions, [] => .ok revisions
  | revisions, revision :: rest =>
      if revision.index ≥ utteranceCount then
        .error (.worker s!"AiOutput revision index {revision.index} out of range")
      else if (revisions.lookup revision.index).isSome then
        .error (.worker s!"AiOutput has duplicate revision for index {revision.index}")
      else
        collectRevisions utteranceCount
          (revisions ++ [(revision.index, ensureTrailingNewline revision.chat)]) rest

variable [ChatDetails] [ChatFormat]

def renderLine (replacement : Option (ℕ × String)) (line : Line × ℕ) : String :=
  match replacement.filter fun replacement => replacement.1 = line.2 with
  | some (_, text) => ensureTrailingNewline text
  | none =>
      if line.1.isUtterance then ChatDetails.lineText line.1
      else ChatDetails.lineText line.1 ++ "\n"

def parseLinesRendering (lines : List Line) (replacement : Option (ℕ × String)) :
    BAResult ChatFile :=
  parseChat (String.join (lines.zipIdx.map (renderLine replacement)))

/-- Revisions from the last to the first. An utterance index that the document no longer has
would panic; the revision is dropped here. -/
def acceptRevisions : ChatFile → List Line → List (ℕ × String) → ChatFile
  | accepted, _, [] => accepted
  | accepted, lines, (utteranceIdx, replacement) :: revisions =>
      match (utteranceLineIndices lines)[utteranceIdx]? with
      | none => acceptRevisions accepted lines revisions
      | some lineIdx =>
          match parseLinesRendering lines (some (lineIdx, replacement)) with
          | .ok parsed => acceptRevisions parsed parsed.lines revisions
          | .error _ => acceptRevisions accepted lines revisions

def applyRevisions (lines : List Line) (output : AiOutput) : BAResult ChatFile := do
  let revisions ← collectRevisions (utteranceLineIndices lines).length [] output.revisions
  let accepted ← parseLinesRendering lines none
  let fromLast := revisions.insertionSort fun one other => other.1 ≤ one.1
  return acceptRevisions accepted lines fromLast

end Revisions

section Apply

variable [ChatDetails] [ChatFormat]

/-- The neighbours of an utterance. -/
def contextFor (utts : List Utterance) (idx : ℕ) : List String :=
  let before := if idx > 0 then utts[idx - 1]?.toList else []
  (before ++ utts[idx + 1]?.toList).map fun utt => ChatDetails.lineText (.utterance utt)

def aiInput (instruction : String) (chat : Chat) : AiInput where
  sourceId := chat.sourceId
  instruction := instruction
  utterances := chat.ast.utterances.zipIdx.map fun (utt, idx) =>
    ⟨idx % 2 ^ 32, ChatDetails.lineText (.utterance utt), contextFor chat.ast.utterances idx⟩

def aiRunner (backend : AiInput → BAResult AiOutput) : Runner
  | .ai instruction chat =>
      let total := chat.ast.utterances.length
      let tick (completed : ℕ) : List RunnerEvent :=
        if total > 0 then [.stageTick chat.sourceId .ai completed total] else []
      let started := .stageStarted chat.sourceId .ai :: tick 0
      match backend (aiInput instruction chat) with
      | .error error => ⟨.error error, .ai instruction chat, started⟩
      | .ok output =>
          let answered := started ++ tick total
          match applyRevisions chat.ast.lines output with
          | .error error => ⟨.error error, .ai instruction chat, answered⟩
          | .ok revised =>
              ⟨.ok (), .chat { chat with ast := revised },
                answered ++ [.stageInjected chat.sourceId .ai ""]⟩
  | .failed sourceId error partialValue => ⟨.ok (), .failed sourceId error partialValue, []⟩
  | other =>
      ⟨.error (.internal s!"AiTaskRunner: expected BAValue::Ai, got {other.kind}"), other, []⟩

theorem aiRunner_keeps (backend : AiInput → BAResult AiOutput) (value : BAValue) :
    KeepsValue (aiRunner backend) value := by
  cases value with
  | ai instruction chat =>
      show Keeps (aiRunner backend (.ai instruction chat)) (.ai instruction chat)
      simp only [aiRunner]
      split
      · exact keeps_error _ _ _
      · split
        · exact keeps_error _ _ _
        · exact keeps_ok _ _ _
  | failed sourceId error partialValue => exact keeps_ok _ _ _
  | _ => exact keeps_error _ _ _

end Apply

end Batchalign.Runners
