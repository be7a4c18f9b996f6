import Batchalign.Compare.CacheKey
import Batchalign.Engine.TaskOrder
import Batchalign.Values

/-!
# The run of a source

`try_step` drives a value through one stage and `run_one` through all of them. Runners,
the provenance stamp and the Python side of the inputs are parameters.
-/

namespace Batchalign.Engine

open Batchalign.Chat Batchalign.Compare

section Gates

/-- The gates of `talkbank_transform`. The errors are given by their `Display` texts. -/
class ValidationGates where
  parseUnvalidated : String → Except PipelineError ChatFile
  displayError : PipelineError → String
  validateToMainTier : ChatFile → Except (List String) Unit
  validateOutput : ChatFile → String → Except (List String) Unit

inductive StageGate where
  | pre
  | post
deriving DecidableEq, Repr

def StageGate.phase : StageGate → String
  | .pre => "pre-stage"
  | .post => "post-stage"

def validationCommand : Task → String
  | Task.morphosyntax => "morphotag"
  | .fa => "align"
  | other => other.asStr

def formatValidationErrors (task : Task) (phase : String) (errors : List String) : String :=
  let details := "; ".intercalate errors
  s!"{task.asStr} {phase} validation failed: {details}"

variable [ChatFormat] [ValidationGates]

def reparseStageAst (chat : Chat) (task : Task) (phase : String) : BAResult ChatFile :=
  (ValidationGates.parseUnvalidated (ChatFormat.toChat chat.ast)).mapError fun error =>
    let text := ValidationGates.displayError error
    .validation s!"{task.asStr} {phase} reparse failed: {text}"

/-- `validate_stage_input` before the stage and `validate_stage_output` after it. -/
def validateStage (task : Task) (gate : StageGate) (chat : Chat) : BAResult Unit := do
  let ast ← reparseStageAst chat task gate.phase
  let checked := match gate with
    | .pre => ValidationGates.validateToMainTier ast
    | .post => ValidationGates.validateOutput ast (validationCommand task)
  checked.mapError fun errors => .validation (formatValidationErrors task gate.phase errors)

/-- Every transcript the value carries. -/
def validateValueForStage (task : Task) (gate : StageGate) : BAValue → BAResult Unit
  | .chat chat | .ai _ chat => validateStage task gate chat
  | .paired pair => do
      validateStage task gate pair.main
      validateStage task gate pair.gold
  | .cons head tail => do
      validateValueForStage task gate head
      validateValueForStage task gate tail
  | .media _ | .mediaOutput _ | .metrics _ | .nil | .failed _ _ _ => .ok ()

end Gates

section Definitions

/-- `trace` is the stack trace taken when verbose tracebacks are asked for. -/
structure PipelineInner where
  order : List Task
  runners : Task → Option Runner
  stampProvenance : Task → Chat → Chat
  trace : Option String

def formatStageFailureMessage (inner : PipelineInner) (message : String) : String :=
  match inner.trace with
  | none => message
  | some trace => s!"{message}\nRust stack trace (captured at file failure):\n{trace}"

def stageEvent (sourceId : String) (task : Task) (kind : ProgressKind) (label : String) :
    ProgressEvent :=
  ⟨sourceId, some task, kind, 0, 0, label⟩

def stageFailed (inner : PipelineInner) (sourceId : String) (task : Task) (error : BAError) :
    ProgressEvent :=
  stageEvent sourceId task .stageFailed (formatStageFailureMessage inner error.display)

def sourceCompleted (sourceId : String) : ProgressEvent :=
  ⟨sourceId, none, .sourceCompleted, 0, 0, ""⟩

variable [ChatFormat] [ValidationGates]

/-- One stage. Every failure wraps the value as the runner left it. -/
def tryStep (inner : PipelineInner) (task : Task) (value : BAValue) :
    BAValue × List ProgressEvent :=
  let sourceId := value.sourceId
  let started := stageEvent sourceId task .stageStarted task.debug
  match inner.runners task with
  | none => (.failed sourceId (.internal s!"no runner for {task.debug}") (some value), [started])
  | some runner =>
      match validateValueForStage task .pre value with
      | .error error =>
          (.failed sourceId error (some value), [started, stageFailed inner sourceId task error])
      | .ok () =>
          let outcome := runner value
          let ran := started :: outcome.events.map RunnerEvent.toProgressEvent
          match outcome.result with
          | .error error =>
              (.failed sourceId error (some outcome.value),
                ran ++ [stageFailed inner sourceId task error])
          | .ok () =>
              match validateValueForStage task .post outcome.value with
              | .error error =>
                  (.failed sourceId error (some outcome.value),
                    ran ++ [stageFailed inner sourceId task error])
              | .ok () =>
                  (outcome.value, ran ++ [stageEvent sourceId task .stageInjected task.debug])

def stampChatsInValue (inner : PipelineInner) : BAValue → BAValue
  | .chat chat =>
      .chat (inner.order.foldl (fun chat task => inner.stampProvenance task chat) chat)
  | .ai instruction chat =>
      .ai instruction (inner.order.foldl (fun chat task => inner.stampProvenance task chat) chat)
  | .cons head tail => .cons (stampChatsInValue inner head) (stampChatsInValue inner tail)
  | value => value

def stampRunProvenance (inner : PipelineInner) (value : BAValue) : BAValue :=
  if value.isFailed then value else stampChatsInValue inner value

/-- The stages that are left. A value that has failed is returned before the next stage. -/
def runStages (inner : PipelineInner) : List Task → BAValue → BAValue × List ProgressEvent
  | [], value =>
      let stamped := stampRunProvenance inner value
      (stamped, [sourceCompleted stamped.sourceId])
  | task :: tasks, value =>
      if value.isFailed then (value, [])
      else
        let stepped := tryStep inner task value
        let rest := runStages inner tasks stepped.1
        (rest.1, stepped.2 ++ rest.2)

def runOne (inner : PipelineInner) (value : BAValue) : BAValue × List ProgressEvent :=
  runStages inner inner.order value

/-- The values an input converts to. -/
inductive ConvertedInput where
  | media (input : MediaInput)
  | chat (chat : Chat)
  | ai (instruction : String) (chat : Chat)
  | paired (pair : Paired)

def ConvertedInput.toValue : ConvertedInput → BAValue
  | .media input => .media input
  | .chat document => .chat document
  | .ai instruction document => .ai instruction document
  | .paired pair => .paired pair

/-- A Python object, given by the source id found in it and by its conversion. The error is
the text of the Python exception. -/
structure SourceInput where
  recovered : Option String
  converted : Except String ConvertedInput

def convertInputOrFailure (inner : PipelineInner) (input : SourceInput) :
    Except String BAValue × List ProgressEvent :=
  match input.converted with
  | .ok value => (.ok value.toValue, [])
  | .error message =>
      match input.recovered with
      | some sourceId =>
          (.ok (.failed sourceId (.parse message) none),
            [⟨sourceId, none, .stageFailed, 0, 0, formatStageFailureMessage inner message⟩,
              sourceCompleted sourceId])
      | none => (.error message, [])

/-- What happens to one input. An input without a source id ends the whole run with a Python
exception. -/
def runSource (inner : PipelineInner) (input : SourceInput) :
    Except String BAValue × List ProgressEvent :=
  match convertInputOrFailure inner input with
  | (.error message, events) => (.error message, events)
  | (.ok value, events) =>
      let ran := runOne inner value
      (.ok ran.1, events ++ ran.2)

end Definitions

section Completions

theorem ConvertedInput.toValue_isFailed (input : ConvertedInput) :
    input.toValue.isFailed = false := by
  cases input <;> rfl

/-- The number of terminal events. -/
def completions (events : List ProgressEvent) : ℕ :=
  events.countP fun event => event.kind = .sourceCompleted

@[simp] theorem completions_nil : completions [] = 0 := rfl

@[simp] theorem completions_append (before after : List ProgressEvent) :
    completions (before ++ after) = completions before + completions after :=
  List.countP_append

@[simp] theorem completions_sourceCompleted (sourceId : String) :
    completions [sourceCompleted sourceId] = 1 := rfl

@[simp] theorem completions_cons_stageEvent (sourceId : String) (task : Task)
    (kind : ProgressKind) (label : String) (events : List ProgressEvent) :
    completions (stageEvent sourceId task kind label :: events) =
      (if kind = .sourceCompleted then 1 else 0) + completions events := by
  simp only [completions, List.countP_cons, stageEvent, decide_eq_true_eq]
  exact Nat.add_comm _ _

@[simp] theorem completions_runner (events : List RunnerEvent) :
    completions (events.map RunnerEvent.toProgressEvent) = 0 := by
  rw [completions, List.countP_map, List.countP_eq_zero]
  intro event _
  simpa using event.toProgressEvent_kind

end Completions

section Stages

variable [ChatFormat] [ValidationGates] {inner : PipelineInner} {task : Task}
  {value next : BAValue}

/-- The stage hands on a value that has not failed. -/
structure StagePasses (inner : PipelineInner) (task : Task) (value next : BAValue) : Prop where
  runs : ∃ runner events, inner.runners task = some runner ∧ runner value = ⟨.ok (), next, events⟩
  acceptsInput : validateValueForStage task .pre value = .ok ()
  acceptsOutput : validateValueForStage task .post next = .ok ()
  alive : next.isFailed = false

/-- All these stages pass, one after the other. -/
def StagesPass (inner : PipelineInner) : List Task → BAValue → Prop
  | [], _ => True
  | task :: tasks, value => ∃ next, StagePasses inner task value next ∧
      StagesPass inner tasks next

theorem StagePasses.tryStep (passes : StagePasses inner task value next) :
    (tryStep inner task value).1 = next := by
  rcases passes with ⟨⟨runner, events, isRunner, ran⟩, acceptsInput, acceptsOutput, _⟩
  simp [Engine.tryStep, isRunner, acceptsInput, ran, acceptsOutput]

/-- A stage that does not pass leaves a failed value. -/
theorem tryStep_isFailed (fails : ∀ next, ¬ StagePasses inner task value next) :
    (tryStep inner task value).1.isFailed = true := by
  simp only [tryStep]
  cases isRunner : inner.runners task with
  | none => rfl
  | some runner =>
      cases acceptsInput : validateValueForStage task .pre value with
      | error error => rfl
      | ok _ =>
          cases ran : runner value with
          | mk result next events =>
              simp only [ran]
              cases result with
              | error error => rfl
              | ok _ =>
                  cases acceptsOutput : validateValueForStage task .post next with
                  | error error => rfl
                  | ok _ =>
                      by_contra alive
                      rw [Bool.not_eq_true] at alive
                      exact fails next
                        ⟨⟨runner, events, isRunner, ran⟩, acceptsInput, acceptsOutput, alive⟩

/-- No stage emits a terminal event. -/
theorem completions_tryStep (inner : PipelineInner) (task : Task) (value : BAValue) :
    completions (tryStep inner task value).2 = 0 := by
  simp only [tryStep]
  cases inner.runners task with
  | none => simp
  | some runner =>
      cases validateValueForStage task .pre value with
      | error error => simp [stageFailed]
      | ok _ =>
          cases ran : runner value with
          | mk result next events =>
              simp only [ran]
              cases result with
              | error error => simp [stageFailed]
              | ok _ =>
                  cases validateValueForStage task .post next with
                  | error error => simp [stageFailed]
                  | ok _ => simp

theorem runStages_failed (task : Task) (tasks : List Task) (failed : value.isFailed = true) :
    runStages inner (task :: tasks) value = (value, []) := by
  simp [runStages, failed]

/-- The last stage may fail: the loop ends after it. A stage before it may not. -/
theorem completions_runStages {tasks : List Task} (alive : value.isFailed = false) :
    (StagesPass inner tasks.dropLast value → completions (runStages inner tasks value).2 = 1) ∧
      (¬ StagesPass inner tasks.dropLast value →
        completions (runStages inner tasks value).2 = 0) := by
  induction tasks generalizing value with
  | nil => simp [runStages, StagesPass]
  | cons task tasks ih =>
      have first : completions (runStages inner (task :: tasks) value).2 =
          completions (runStages inner tasks (tryStep inner task value).1).2 := by
        simp [runStages, alive, completions_tryStep]
      rw [first]
      cases tasks with
      | nil => simp [runStages, StagesPass]
      | cons later tasks =>
          rw [List.dropLast_cons_cons]
          by_cases passes : ∃ next, StagePasses inner task value next
          · rcases passes with ⟨next, passes⟩
            rw [passes.tryStep]
            have rest := ih passes.alive
            refine ⟨?_, ?_⟩
            · rintro ⟨next', passes', pass⟩
              have same : next' = next := passes'.tryStep.symm.trans passes.tryStep
              subst same
              exact rest.1 pass
            · intro fail
              exact rest.2 fun pass => fail ⟨next, passes, pass⟩
          · have fails := not_exists.mp passes
            rw [runStages_failed later tasks (tryStep_isFailed fails)]
            refine ⟨?_, fun _ => rfl⟩
            rintro ⟨next, passes', _⟩
            exact absurd passes' (fails next)

/-- A source ends with exactly one terminal event unless a stage other than the last fails, an
input that cannot be converted meets a pipeline without stages, or has no source id. -/
theorem completions_runSource_iff (inner : PipelineInner) (input : SourceInput) :
    completions (runSource inner input).2 = 1 ↔
      match input.converted with
      | .ok value => StagesPass inner inner.order.dropLast value.toValue
      | .error _ => input.recovered.isSome ∧ inner.order ≠ [] := by
  rcases input with ⟨recovered, converted⟩
  cases converted with
  | ok value =>
      have counts := @completions_runStages _ _ inner value.toValue inner.order
        value.toValue_isFailed
      simp only [runSource, convertInputOrFailure, runOne, List.nil_append]
      constructor
      · intro once
        by_contra fail
        rw [counts.2 fail] at once
        cases once
      · exact counts.1
  | error message =>
      cases recovered with
      | none => simp [runSource, convertInputOrFailure]
      | some sourceId =>
          simp only [runSource, convertInputOrFailure, runOne, Option.isSome_some, true_and]
          cases order : inner.order with
          | nil => simp [runStages, stampRunProvenance, completions, sourceCompleted]
          | cons task tasks =>
              rw [runStages_failed task tasks rfl]
              simp [completions, sourceCompleted]

end Stages

section Instances

/-- Gates that accept everything. -/
instance openGates : ValidationGates where
  parseUnvalidated := ChatFormat.parseAndValidate
  displayError
    | .parse errors => errors
    | .validation errors => "; ".intercalate errors
    | .other text => text
  validateToMainTier _ := .ok ()
  validateOutput _ _ := .ok ()

/-- How the two runners answer a value that is no transcript. -/
def expectsChat (message : String) : Runner := fun value =>
  match value with
  | .chat _ | .failed _ _ _ => ⟨.ok (), value, []⟩
  | other => ⟨.error (.internal (message ++ other.kind)), other, []⟩

/-- Segmentation and tagging, as declared. -/
def taggingPipeline : PipelineInner where
  order := [.utSeg, Task.morphosyntax]
  runners
    | .utSeg => some (expectsChat "UtSegTaskRunner: expected BAValue::Chat, got ")
    | Task.morphosyntax => some (expectsChat
        "Morphosyntax expects BAValue::Chat or BAValue::Paired, got ")
    | _ => none
  stampProvenance _ chat := chat
  trace := none

def recording : SourceInput :=
  ⟨some "talk", .ok (.media ⟨"talk", "talk.wav", none⟩)⟩

/-- The first stage rejects the recording and the source never completes. -/
theorem runSource_never_completes :
    (runSource taggingPipeline recording).2 =
      [⟨"talk", some .utSeg, .stageStarted, 0, 0, "UtSeg"⟩,
        ⟨"talk", some .utSeg, .stageFailed, 0, 0,
          "internal: UtSegTaskRunner: expected BAValue::Chat, got Media"⟩] ∧
    completions (runSource taggingPipeline recording).2 ≠ 1 := by
  have events : (runSource taggingPipeline recording).2 =
      [⟨"talk", some .utSeg, .stageStarted, 0, 0, "UtSeg"⟩,
        ⟨"talk", some .utSeg, .stageFailed, 0, 0,
          "internal: UtSegTaskRunner: expected BAValue::Chat, got Media"⟩] := by
    decide
  refine ⟨events, ?_⟩
  rw [events]
  decide

end Instances

end Batchalign.Engine
