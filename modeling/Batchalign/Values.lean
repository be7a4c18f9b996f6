import Batchalign.Compare.Artifact
import Batchalign.Compare.Basic
import Batchalign.Task

/-!
# Values and progress events

The values that flow through a pipeline, and the events it reports. The bytes of an encoded
media file are left out.
-/

namespace Batchalign

open Batchalign.Chat Batchalign.Compare

section Values

structure MediaInput where
  sourceId : String
  path : String
  language : Option String
deriving DecidableEq, Repr

structure MediaOutput where
  sourceId : String
  suffix : String
deriving DecidableEq, Repr

/-- A CHAT document with its source and the audio it came from. -/
structure Chat where
  ast : ChatFile
  sourceId : String
  media : Option MediaInput

/-- What Compare is fed: the transcript it writes and the reference. -/
structure Paired where
  main : Chat
  gold : Chat

/-- The pipeline knows the pair by its main side. -/
def Paired.sourceId (paired : Paired) : String :=
  paired.main.sourceId

/-- The runtime value of a pipeline. A task with several artifacts returns a list of them. -/
inductive BAValue where
  | media (media : MediaInput)
  | mediaOutput (output : MediaOutput)
  | chat (chat : Chat)
  | ai (instruction : String) (chat : Chat)
  | paired (paired : Paired)
  | metrics (artifact : MetricsArtifact)
  | cons (head tail : BAValue)
  | nil
  | failed (sourceId : String) (error : BAError) (partialValue : Option BAValue)

def BAValue.list (items : List BAValue) : BAValue :=
  items.foldr .cons .nil

/-- A list goes by its head. -/
def BAValue.sourceId : BAValue → String
  | .media input => input.sourceId
  | .mediaOutput output => output.sourceId
  | .chat document => document.sourceId
  | .ai _ document => document.sourceId
  | .paired pair => pair.sourceId
  | .metrics artifact => artifact.sourceId
  | .cons head _ => head.sourceId
  | .nil => "nil"
  | .failed sourceId _ _ => sourceId

/-- A list has failed when one of its elements has. -/
def BAValue.isFailed : BAValue → Bool
  | .failed _ _ _ => true
  | .cons head tail => head.isFailed || tail.isFailed
  | _ => false

def BAValue.kind : BAValue → String
  | .media _ => "Media"
  | .mediaOutput _ => "MediaOutput"
  | .chat _ => "Chat"
  | .ai _ _ => "Ai"
  | .paired _ => "Paired"
  | .metrics _ => "Metrics"
  | .failed _ _ _ => "Failed"
  | .cons _ _ => "Cons"
  | .nil => "Nil"

/-- The transcript of a value that is one. -/
def BAValue.chat? : BAValue → Option Chat
  | .chat document => some document
  | _ => none

theorem BAValue.eq_of_chat? {value : BAValue} {document : Chat}
    (isChat : value.chat? = some document) : value = .chat document := by
  cases value <;> cases isChat
  rfl

end Values

section Events

inductive ProgressKind where
  | stageStarted
  | stageInjected
  | stageFailed
  | stageSkipped
  | sourceCompleted
deriving DecidableEq, Repr

/-- The task is missing on the events that end a source. -/
structure ProgressEvent where
  sourceId : String
  task : Option Task
  kind : ProgressKind
  completed : ℕ
  total : ℕ
  label : String
deriving DecidableEq, Repr

/-- The events runners emit. -/
inductive RunnerEvent where
  | stageStarted (sourceId : String) (task : Task)
  | stageTick (sourceId : String) (task : Task) (completed total : ℕ)
  | stageInjected (sourceId : String) (task : Task) (label : String)
deriving DecidableEq, Repr

/-- A tick is a start with counts. -/
def RunnerEvent.toProgressEvent : RunnerEvent → ProgressEvent
  | .stageStarted sourceId task => ⟨sourceId, some task, .stageStarted, 0, 0, ""⟩
  | .stageTick sourceId task completed total =>
      ⟨sourceId, some task, .stageStarted, completed, total, s!"{completed}/{total}"⟩
  | .stageInjected sourceId task label => ⟨sourceId, some task, .stageInjected, 0, 0, label⟩

theorem RunnerEvent.toProgressEvent_kind (event : RunnerEvent) :
    event.toProgressEvent.kind ≠ .sourceCompleted := by
  cases event <;> simp [toProgressEvent]

/-- What a runner leaves behind: its result, the value it worked on, and its events. -/
structure RunnerOutcome where
  result : BAResult Unit
  value : BAValue
  events : List RunnerEvent

abbrev Runner := BAValue → RunnerOutcome

end Events

end Batchalign
