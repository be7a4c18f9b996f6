import Batchalign.Engine.Runs

/-!
# What a source reports

Every event of a source carries a name of its value, so that it reaches the callback of that
source and no other, and the outcome goes by the name of the input. A failure is the last thing
a source reports before it ends, and a source that has reported one does not come to an outcome.
-/

namespace Batchalign

/-- The names events about a value go by: that of its source, and that of the reference of a
pair. -/
def BAValue.names : BAValue → List String
  | .paired pair => [pair.main.sourceId, pair.gold.sourceId]
  | .cons head _ => head.names
  | value => [value.sourceId]

theorem BAValue.sourceId_mem_names : (value : BAValue) → value.sourceId ∈ value.names
  | .paired _ => List.mem_cons_self
  | .cons head _ => head.sourceId_mem_names
  | .media _ | .mediaOutput _ | .chat _ | .ai _ _ | .metrics _ | .nil | .failed _ _ _ =>
      List.mem_cons_self

def RunnerEvent.sourceId (event : RunnerEvent) : String := event.toProgressEvent.sourceId

namespace Engine

section Definitions

/-- The runner works on the source it is given. -/
structure KeepsSource (runner : Runner) : Prop where
  source : ∀ value, (runner value).value.sourceId = value.sourceId
  names : ∀ value, (runner value).value.names ⊆ value.names
  events : ∀ value, ∀ event ∈ (runner value).events, event.sourceId ∈ value.names

/-- Every runner and the stamp work on the source they are given. -/
structure PipelineKeepsSource (inner : PipelineInner) : Prop where
  runners : ∀ task runner, inner.runners task = some runner → KeepsSource runner
  stamp : ∀ task chat, (inner.stampProvenance task chat).sourceId = chat.sourceId

/-- Whatever is left of the value, it is the same source. -/
structure SameSource (value next : BAValue) : Prop where
  source : next.sourceId = value.sourceId
  names : next.names ⊆ value.names

/-- Nothing follows a failure but the end of the source. -/
def FailsLast (events : List ProgressEvent) : Prop :=
  events.Pairwise fun earlier later =>
    earlier.kind = .stageFailed → later.kind = .sourceCompleted

def NoFailure (events : List ProgressEvent) : Prop :=
  ∀ event ∈ events, event.kind ≠ .stageFailed

end Definitions

section Sources

variable {inner : PipelineInner} {task : Task} {value next last : BAValue}

theorem SameSource.refl (value : BAValue) : SameSource value value :=
  ⟨rfl, List.Subset.refl _⟩

theorem SameSource.trans (first : SameSource value next) (second : SameSource next last) :
    SameSource value last :=
  ⟨second.source.trans first.source, fun _ isName => first.names (second.names isName)⟩

/-- A failure goes by the name of its value. -/
theorem SameSource.failed (error : BAError) (partialValue : Option BAValue) :
    SameSource value (.failed value.sourceId error partialValue) := by
  refine ⟨rfl, ?_⟩
  intro name isName
  rw [List.mem_singleton.mp isName]
  exact value.sourceId_mem_names

theorem foldl_stamp_sourceId (keeps : PipelineKeepsSource inner) (tasks : List Task)
    (chat : Chat) :
    (tasks.foldl (fun chat task => inner.stampProvenance task chat) chat).sourceId =
      chat.sourceId := by
  induction tasks generalizing chat with
  | nil => rfl
  | cons task tasks ih => rw [List.foldl_cons, ih, keeps.stamp]

theorem stampChatsInValue_keeps (keeps : PipelineKeepsSource inner) :
    (value : BAValue) → SameSource value (stampChatsInValue inner value)
  | .chat document => by
      have same := foldl_stamp_sourceId keeps inner.order document
      refine ⟨same, ?_⟩
      simp [stampChatsInValue, BAValue.names, BAValue.sourceId, same]
  | .ai _ document => by
      have same := foldl_stamp_sourceId keeps inner.order document
      refine ⟨same, ?_⟩
      simp [stampChatsInValue, BAValue.names, BAValue.sourceId, same]
  | .cons head _ =>
      ⟨(stampChatsInValue_keeps keeps head).source, (stampChatsInValue_keeps keeps head).names⟩
  | .media _ | .mediaOutput _ | .paired _ | .metrics _ | .nil | .failed _ _ _ => .refl _

theorem stampRunProvenance_keeps (keeps : PipelineKeepsSource inner) (value : BAValue) :
    SameSource value (stampRunProvenance inner value) := by
  unfold stampRunProvenance
  split_ifs
  · exact .refl value
  · exact stampChatsInValue_keeps keeps value

variable [Compare.ChatFormat] [ValidationGates]

theorem tryStep_keeps (keeps : PipelineKeepsSource inner) (task : Task) (value : BAValue) :
    SameSource value (tryStep inner task value).1 ∧
      ∀ event ∈ (tryStep inner task value).2, event.sourceId ∈ value.names := by
  have own : ∀ kind label, (stageEvent value.sourceId task kind label).sourceId ∈ value.names :=
    fun _ _ => value.sourceId_mem_names
  rw [tryStep]
  dsimp only
  cases isRunner : inner.runners task with
  | none =>
      refine ⟨.failed .., ?_⟩
      intro event isEvent
      rw [List.mem_singleton.mp isEvent]
      exact own ..
  | some runner =>
      dsimp only
      cases validateValueForStage task .pre value with
      | error error =>
          refine ⟨.failed .., ?_⟩
          intro event isEvent
          simp only [List.mem_cons, List.not_mem_nil, or_false] at isEvent
          rcases isEvent with rfl | rfl
          · exact own ..
          · exact own ..
      | ok _ =>
          have same := keeps.runners task runner isRunner
          have ran : ∀ event ∈ stageEvent value.sourceId task .stageStarted task.debug ::
              (runner value).events.map RunnerEvent.toProgressEvent,
              event.sourceId ∈ value.names := by
            intro event isEvent
            rcases List.mem_cons.mp isEvent with rfl | isEvent
            · exact own ..
            · rcases List.mem_map.mp isEvent with ⟨reported, isReported, rfl⟩
              exact same.events value reported isReported
          have andThen : ∀ event, event.sourceId ∈ value.names →
              ∀ other ∈ (stageEvent value.sourceId task .stageStarted task.debug ::
                (runner value).events.map RunnerEvent.toProgressEvent) ++ [event],
                other.sourceId ∈ value.names := by
            intro event isName other isOther
            rcases List.mem_append.mp isOther with before | isLast
            · exact ran other before
            · rwa [List.mem_singleton.mp isLast]
          dsimp only
          cases (runner value).result with
          | error error => exact ⟨.failed .., andThen _ (own ..)⟩
          | ok _ =>
              dsimp only
              cases validateValueForStage task .post (runner value).value with
              | error error => exact ⟨.failed .., andThen _ (own ..)⟩
              | ok _ => exact ⟨⟨same.source value, same.names value⟩, andThen _ (own ..)⟩

theorem runStages_keeps (keeps : PipelineKeepsSource inner) (tasks : List Task)
    (value : BAValue) :
    SameSource value (runStages inner tasks value).1 ∧
      ∀ event ∈ (runStages inner tasks value).2, event.sourceId ∈ value.names := by
  induction tasks generalizing value with
  | nil =>
      have stamped := stampRunProvenance_keeps keeps value
      refine ⟨stamped, ?_⟩
      intro event isEvent
      rw [List.mem_singleton.mp isEvent]
      exact stamped.names (BAValue.sourceId_mem_names _)
  | cons task tasks ih =>
      rw [runStages]
      split_ifs
      · exact ⟨.refl value, by simp⟩
      · have first := tryStep_keeps keeps task value
        have rest := ih (tryStep inner task value).1
        refine ⟨first.1.trans rest.1, ?_⟩
        intro event isEvent
        rcases List.mem_append.mp isEvent with here | later
        · exact first.2 event here
        · exact first.1.names (rest.2 event later)

end Sources

section Failures

variable {inner : PipelineInner} {task : Task} {value : BAValue}
  {before after : List ProgressEvent}

theorem NoFailure.append (first : NoFailure before) (second : NoFailure after) :
    NoFailure (before ++ after) := by
  intro event isEvent
  rcases List.mem_append.mp isEvent with here | later
  · exact first event here
  · exact second event later

theorem NoFailure.failsLast (none_ : NoFailure before) : FailsLast before :=
  List.pairwise_of_forall_mem_list fun earlier isEarlier _ _ failed =>
    absurd failed (none_ earlier isEarlier)

/-- Events without a failure come before any others. -/
theorem NoFailure.append_failsLast (none_ : NoFailure before) (failsLast : FailsLast after) :
    FailsLast (before ++ after) :=
  List.pairwise_append.mpr ⟨none_.failsLast, failsLast,
    fun earlier isEarlier _ _ failed => absurd failed (none_ earlier isEarlier)⟩

theorem noFailure_ran (task : Task) (value : BAValue) (events : List RunnerEvent) :
    NoFailure (stageEvent value.sourceId task .stageStarted task.debug ::
      events.map RunnerEvent.toProgressEvent) := by
  intro event isEvent
  rcases List.mem_cons.mp isEvent with rfl | isEvent
  · simp [stageEvent]
  · rcases List.mem_map.mp isEvent with ⟨reported, _, rfl⟩
    cases reported <;> simp [RunnerEvent.toProgressEvent]

theorem noFailure_sourceCompleted (sourceId : String) : NoFailure [sourceCompleted sourceId] := by
  simp [NoFailure, sourceCompleted]

theorem stampChatsInValue_isFailed (inner : PipelineInner) :
    (value : BAValue) → (stampChatsInValue inner value).isFailed = value.isFailed
  | .cons head tail => by
      rw [stampChatsInValue, BAValue.isFailed, BAValue.isFailed,
        stampChatsInValue_isFailed inner head, stampChatsInValue_isFailed inner tail]
  | .media _ | .mediaOutput _ | .chat _ | .ai _ _ | .paired _ | .metrics _ | .nil
  | .failed _ _ _ => rfl

theorem stampRunProvenance_isFailed (inner : PipelineInner) (value : BAValue) :
    (stampRunProvenance inner value).isFailed = value.isFailed := by
  unfold stampRunProvenance
  split_ifs
  · rfl
  · exact stampChatsInValue_isFailed inner value

variable [Compare.ChatFormat] [ValidationGates]

/-- A stage reports at most one failure, at its end, and leaves a failed value then. -/
theorem tryStep_fails (inner : PipelineInner) (task : Task) (value : BAValue) :
    FailsLast (tryStep inner task value).2 ∧
      ((tryStep inner task value).1.isFailed = false → NoFailure (tryStep inner task value).2) := by
  have failing : ∀ {events : List ProgressEvent} (event : ProgressEvent) {failed : BAValue},
      NoFailure events → failed.isFailed = true →
        FailsLast (events ++ [event]) ∧
          (failed.isFailed = false → NoFailure (events ++ [event])) := by
    intro events event failed none_ isFailed
    refine ⟨none_.append_failsLast (List.pairwise_singleton _ _), ?_⟩
    intro alive
    rw [isFailed] at alive
    cases alive
  rw [tryStep]
  dsimp only
  cases inner.runners task with
  | none =>
      have none_ := noFailure_ran task value []
      exact ⟨none_.failsLast, fun _ => none_⟩
  | some runner =>
      dsimp only
      have started := noFailure_ran task value []
      have ran := noFailure_ran task value (runner value).events
      cases validateValueForStage task .pre value with
      | error error => exact failing _ started rfl
      | ok _ =>
          dsimp only
          cases (runner value).result with
          | error error => exact failing _ ran rfl
          | ok _ =>
              dsimp only
              cases validateValueForStage task .post (runner value).value with
              | error error => exact failing _ ran rfl
              | ok _ =>
                  have last : NoFailure
                      [stageEvent value.sourceId task .stageInjected task.debug] := by
                    simp [NoFailure, stageEvent]
                  exact ⟨(ran.append last).failsLast, fun _ => ran.append last⟩

theorem runStages_fails (inner : PipelineInner) (tasks : List Task)
    (alive : value.isFailed = false) :
    FailsLast (runStages inner tasks value).2 ∧
      ((runStages inner tasks value).1.isFailed = false →
        NoFailure (runStages inner tasks value).2) := by
  induction tasks generalizing value with
  | nil =>
      have none_ := noFailure_sourceCompleted (stampRunProvenance inner value).sourceId
      exact ⟨none_.failsLast, fun _ => none_⟩
  | cons task tasks ih =>
      rw [runStages, if_neg (by simp [alive])]
      dsimp only
      have first := tryStep_fails inner task value
      cases failed : (tryStep inner task value).1.isFailed with
      | false =>
          have none_ := first.2 failed
          have rest := ih failed
          exact ⟨none_.append_failsLast rest.1, fun ends => none_.append (rest.2 ends)⟩
      | true =>
          cases tasks with
          | nil =>
              rw [runStages]
              refine ⟨List.pairwise_append.mpr ⟨first.1, List.pairwise_singleton _ _, ?_⟩, ?_⟩
              · intro earlier _ later isLater _
                rw [List.mem_singleton.mp isLater]
                rfl
              · intro ends
                rw [stampRunProvenance_isFailed, failed] at ends
                cases ends
          | cons other tasks =>
              rw [runStages_failed other tasks failed, List.append_nil]
              refine ⟨first.1, ?_⟩
              intro ends
              rw [failed] at ends
              cases ends

end Failures

section Jobs

variable [Compare.ChatFormat] [ValidationGates] {inner : PipelineInner}
  {runners : Task → Option Runner} {input : SourceInput} {sourceId : String}

/-- The input can be recovered, and goes by the same name once it is converted. Names of
references do not matter as long as they are not taken for sources. -/
structure Named (foreign : String → Prop) (sourceId : String) (input : SourceInput) : Prop where
  recovered : input.recovered = some sourceId
  converted : ∀ value, input.converted = .ok value → value.toValue.sourceId = sourceId ∧
    ∀ name ∈ value.toValue.names, name = sourceId ∨ foreign name

/-- What is known of the work on one source. -/
structure JobReports (foreign : String → Prop) (sourceId : String)
    (ran : List ProgressEvent × SourceResult) : Prop where
  names : ∀ event ∈ ran.1, event.sourceId = sourceId ∨ foreign event.sourceId
  failsLast : FailsLast ran.1
  result : ∃ value, ran.2 = .ok value ∧ value.sourceId = sourceId ∧
    (value.isFailed = false → NoFailure ran.1)

/-- An input that cannot be converted has nothing more to report. -/
theorem runOne_failed (inner : PipelineInner) (sourceId : String) (error : BAError) :
    (runOne inner (.failed sourceId error none)).1 = .failed sourceId error none ∧
      ∀ event ∈ (runOne inner (.failed sourceId error none)).2,
        event = sourceCompleted sourceId := by
  rw [runOne]
  cases inner.order with
  | nil => exact ⟨rfl, fun event isEvent => List.mem_singleton.mp isEvent⟩
  | cons task tasks => exact ⟨rfl, fun _ isEvent => absurd isEvent List.not_mem_nil⟩

/-- A source reports under its own name, or under a foreign one, and comes to an outcome of its
own name. -/
theorem runJob_reports {foreign : String → Prop} (keeps : PipelineKeepsSource
    { inner with runners := runners }) (named : Named foreign sourceId input) :
    JobReports foreign sourceId (runJob inner runners (.object input)) := by
  rcases input with ⟨recovered, converted⟩
  obtain rfl : recovered = some sourceId := named.recovered
  cases converted with
  | ok value =>
      rcases named.converted value rfl with ⟨source, names⟩
      have kept := runStages_keeps keeps inner.order value.toValue
      have fails := runStages_fails { inner with runners := runners } inner.order
        value.toValue_isFailed
      refine ⟨?_, fails.1, ⟨_, rfl, kept.1.source.trans source, fails.2⟩⟩
      intro event isEvent
      exact names _ (kept.2 event isEvent)
  | error message =>
      have left := runOne_failed { inner with runners := runners } sourceId (.parse message)
      have ends : ∀ event ∈ sourceCompleted sourceId :: (runOne { inner with runners := runners }
          (.failed sourceId (.parse message) none)).2, event = sourceCompleted sourceId := by
        intro event isEvent
        rcases List.mem_cons.mp isEvent with rfl | later
        · rfl
        · exact left.2 event later
      refine ⟨?_, ?_, ⟨_, rfl, congrArg BAValue.sourceId left.1, ?_⟩⟩
      · intro event isEvent
        rcases List.mem_cons.mp isEvent with rfl | later
        · exact .inl rfl
        · exact .inl (congrArg ProgressEvent.sourceId (ends event later))
      · refine List.pairwise_cons.mpr ⟨?_, ?_⟩
        · intro event isEvent _
          exact congrArg ProgressEvent.kind (ends event isEvent)
        · exact NoFailure.failsLast fun event isEvent failed => by
            rw [ends event isEvent] at failed
            cases failed
      · intro alive
        rw [left.1] at alive
        cases alive

end Jobs

end Engine

end Batchalign
