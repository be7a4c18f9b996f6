import Batchalign.Desktop.Bridge

/-!
# What the clients of a job are told

The lines in the file of events are a beginning of what the worker has reported, and what the
daemon has queued is a beginning of the lines it has cut off. At the end the job has been
cancelled, or an exception has failed all of its sources, or everything was told and the job is
as the worker left it.
-/

namespace Batchalign.Desktop

open Batchalign.Compare Batchalign.Cli Batchalign.Engine DispatchWindow JsonText LineBuffer
  Transition

section Definitions

variable {Choice : Type}

/-- The lines that were handed to the file of events. -/
def Bridge.lines (bridge : Bridge Choice) : List (List Char) :=
  (bridge.worker.events.take bridge.dumped).map WireEvent.line

/-- The queue after this many events. -/
def told (events : List WireEvent) (count : ℕ) : List (Option Fields) :=
  (events.take count).map fun event => some event.payload

/-- The worker and its files. -/
structure Filed (bridge : Bridge Choice) : Prop where
  alive : bridge.worker.state ≠ .cancelled
  settled : bridge.worker.phase.isEnded →
    bridge.worker.state ≠ .pending ∧ bridge.worker.state ≠ .running
  dumped : bridge.dumped ≤ bridge.worker.events.length
  written : bridge.text ++ bridge.unwritten = terminated '\n' bridge.lines
  offset : bridge.offset ≤ bridge.text.length
  report : ∀ report, bridge.report = some report → bridge.worker.phase.isEnded ∧
    bridge.dumped = bridge.worker.events.length ∧ bridge.unwritten = [] ∧
      report = ⟨bridge.worker.state, bridge.worker.error, bridge.worker.result⟩
  code : bridge.code = some 0 → bridge.report.isSome

/-- The daemon has cut off so many lines and has queued so many of them. After a cancellation
it queues none. -/
structure Following (calm : Prop) (bridge : Bridge Choice) (kept count : ℕ) : Prop where
  follows : Follows '\n' bridge.lines count (bridge.text.take bridge.offset) bridge.pending
  queue : bridge.queue = told bridge.worker.events kept
  within : kept ≤ count
  open_ : bridge.state = .running ∨ bridge.state = .cancelled
  all : bridge.state ≠ .cancelled → kept = count
  calm : calm → bridge.state ≠ .cancelled

/-- What is known about the end of the process. -/
def Known (bridge : Bridge Choice) (count : ℕ) : MonitorPhase → Prop
  | .reading true => bridge.code.isSome
  | .cutting true =>
      bridge.code.isSome ∧ (bridge.code = some 0 → bridge.offset = bridge.text.length)
  | .concluding => bridge.code.isSome ∧ (bridge.code = some 0 → count = bridge.dumped)
  | _ => True

/-- How a job comes out. -/
inductive Outcome (calm : Prop) (req : ValidRequest) (sources : List (String × PurePath))
    (bridge : Bridge Choice) (kept : ℕ) : List Fields → Prop where
  | cancelled (state : bridge.state = .cancelled) (asked : ¬ calm) :
      Outcome calm req sources bridge kept []
  | raised {message : String} (state : bridge.state = .failed)
      (error : bridge.error = some message) :
      Outcome calm req sources bridge kept (sources.map (Bridge.failure req message))
  | concluded (isEnded : bridge.worker.phase.isEnded = true)
      (report : (⟨bridge.state, bridge.error, bridge.result⟩ : Report) =
        ⟨bridge.worker.state, bridge.worker.error, bridge.worker.result⟩)
      (all : calm → kept = bridge.worker.events.length) :
      Outcome calm req sources bridge kept []

/-- What a job that has come out has queued. -/
def Closed (calm : Prop) (req : ValidRequest) (sources : List (String × PurePath))
    (bridge : Bridge Choice) (last : List (Option Fields)) : Prop :=
  ∃ kept failures, kept ≤ bridge.worker.events.length ∧
    bridge.queue = told bridge.worker.events kept ++ failures.map some ++ last ∧
      Outcome calm req sources bridge kept failures

/-- The queue of a job where the daemon is. If the job is calm, nobody has cancelled it. -/
def PhaseTold (calm : Prop) (req : ValidRequest) (sources : List (String × PurePath))
    (bridge : Bridge Choice) : MonitorPhase → Prop
  | .closing => Closed calm req sources bridge []
  | .ended => Closed calm req sources bridge [none]
  | phase => ∃ kept count, Following calm bridge kept count ∧ Known bridge count phase

/-- What a step of the worker or of a file can change. A process that has ended well changes
nothing more. -/
structure FilesMove (bridge next : Bridge Choice) : Prop where
  events : bridge.worker.events <+: next.worker.events
  ended : bridge.worker.phase.isEnded → next.worker = bridge.worker
  lines : ∃ later, next.lines = bridge.lines ++ later
  text : bridge.text <+: next.text
  code : bridge.code.isSome → next.code = bridge.code
  still : bridge.code = some 0 → next.text = bridge.text ∧ next.dumped = bridge.dumped
  offset : next.offset = bridge.offset
  pending : next.pending = bridge.pending
  queue : next.queue = bridge.queue
  report : (⟨next.state, next.error, next.result⟩ : Report) =
    ⟨bridge.state, bridge.error, bridge.result⟩
  phase : next.phase = bridge.phase

def BridgeEvent.isFiles : BridgeEvent Choice → Bool
  | .work _ | .openFile | .dump | .write _ | .report | .exit _ => true
  | _ => false

end Definitions

section Files

variable {Choice : Type} {bridge next : Bridge Choice} {event : BridgeEvent Choice}

theorem newline_notMem_lines (bridge : Bridge Choice) : ∀ line ∈ bridge.lines, '\n' ∉ line := by
  intro line isLine
  rcases List.mem_map.mp isLine with ⟨event, _, rfl⟩
  exact newline_notMem_dumps event.payload

theorem told_of_prefix {events later : List WireEvent} {count : ℕ} (grows : events <+: later)
    (inside : count ≤ events.length) : told later count = told events count := by
  rcases grows with ⟨more, rfl⟩
  rw [told, told, List.take_append_of_le_length inside]

theorem Filed.still (filed : Filed bridge) (isOver : bridge.code = some 0) :
    bridge.worker.phase.isEnded ∧ bridge.dumped = bridge.worker.events.length ∧
      bridge.unwritten = [] := by
  rcases Option.isSome_iff_exists.mp (filed.code isOver) with ⟨report, isReport⟩
  rcases filed.report report isReport with ⟨isEnded, dumped, unwritten, _⟩
  exact ⟨isEnded, dumped, unwritten⟩

variable [FileSystem] [ChatFormat] [ValidationGates] {surroundings : Surroundings Choice}
  {req : ValidRequest} {root : PurePath} {sources : List (String × PurePath)}

theorem filesMove (filed : Filed bridge) (isFiles : event.isFiles = true)
    (steps : bridge.step surroundings req root sources event = some next) :
    Filed next ∧ FilesMove bridge next := by
  rcases filed with ⟨alive, settled, dumped, written, offset, report, code⟩
  cases event with
  | work event =>
      simp only [Bridge.step] at steps
      split_ifs at steps with blocked
      rcases Option.map_eq_some_iff.mp steps with ⟨worker, works, rfl⟩
      rw [not_or, Bool.not_eq_true] at blocked
      have known := stepsTo blocked.2 works
      have going : bridge.worker.phase.isEnded = true → False := by
        intro isEnded
        rw [JobRun.step_ended isEnded] at works
        cases works
      have lines : (worker.events.take bridge.dumped).map WireEvent.line = bridge.lines := by
        rcases known.events with ⟨more, whole⟩
        rw [← whole, List.take_append_of_le_length dumped]
        rfl
      refine ⟨⟨known.alive alive, known.ended, dumped.trans known.events.length_le, ?_, offset, ?_,
        code⟩, ⟨known.events, fun isEnded => (going isEnded).elim, ⟨[], ?_⟩, List.prefix_refl _,
        fun _ => rfl, fun _ => ⟨rfl, rfl⟩, rfl, rfl, rfl, rfl, rfl⟩⟩
      · rw [Bridge.lines, lines]
        exact written
      · intro there isReport
        exact (going (report there isReport).1).elim
      · rw [List.append_nil]
        exact lines
  | openFile =>
      simp only [Bridge.step] at steps
      split_ifs at steps with blocked
      cases steps
      rw [not_or, Option.not_isSome_iff_eq_none] at blocked
      have empty : bridge.text = [] := by rw [Bridge.text, blocked.2, Option.getD_none]
      rw [empty] at written offset
      exact ⟨⟨alive, settled, dumped, written, offset, report, code⟩, ⟨List.prefix_refl _,
        fun _ => rfl, ⟨[], (List.append_nil _).symm⟩, by rw [empty]; exact List.nil_prefix,
        fun _ => rfl, fun _ => ⟨empty.symm, rfl⟩, rfl, rfl, rfl, rfl, rfl⟩⟩
  | dump =>
      simp only [Bridge.step] at steps
      split at steps
      · next there event isFile noText isEvent =>
          cases steps
          have inside : bridge.dumped < bridge.worker.events.length :=
            (List.getElem?_eq_some_iff.mp isEvent).1
          have lines : (bridge.worker.events.take (bridge.dumped + 1)).map WireEvent.line =
              bridge.lines ++ [event.line] := by
            rw [List.take_add_one, isEvent, List.map_append]
            rfl
          rw [noText, List.append_nil] at written
          refine ⟨⟨alive, settled, inside, ?_, offset, ?_, code⟩, ⟨List.prefix_refl _, fun _ => rfl,
            ⟨_, lines⟩, List.prefix_refl _, fun _ => rfl, ?_, rfl, rfl, rfl, rfl, rfl⟩⟩
          · rw [Bridge.lines, lines, terminated_append, ← written]
            simp [Bridge.text, terminated]
          · intro there isReport
            have same := (report there isReport).2.1
            omega
          · intro isOver
            have same := (Filed.still ⟨alive, settled, dumped, by rwa [noText, List.append_nil],
              offset, report, code⟩ isOver).2.1
            omega
      · cases steps
  | write length =>
      simp only [Bridge.step] at steps
      rcases Option.map_eq_some_iff.mp steps with ⟨there, isFile, rfl⟩
      have text : bridge.text = there := by rw [Bridge.text, isFile, Option.getD_some]
      have still (isOver : bridge.code = some 0) :=
        (Filed.still ⟨alive, settled, dumped, written, offset, report, code⟩ isOver).2.2
      rw [text] at written offset
      refine ⟨⟨alive, settled, dumped, ?_, ?_, ?_, code⟩, ⟨List.prefix_refl _, fun _ => rfl,
        ⟨[], (List.append_nil _).symm⟩, ?_, fun _ => rfl, ?_, rfl, rfl, rfl, rfl, rfl⟩⟩
      · show there ++ bridge.unwritten.take length ++ bridge.unwritten.drop length = _
        rw [List.append_assoc, List.take_append_drop]
        exact written
      · show bridge.offset ≤ (there ++ bridge.unwritten.take length).length
        rw [List.length_append]
        omega
      · intro there isReport
        rcases report there isReport with ⟨isEnded, all, noText, same⟩
        refine ⟨isEnded, all, ?_, same⟩
        show bridge.unwritten.drop length = []
        rw [noText, List.drop_nil]
      · rw [text]
        exact List.prefix_append _ _
      · intro isOver
        refine ⟨?_, rfl⟩
        show there ++ bridge.unwritten.take length = bridge.text
        rw [still isOver, List.take_nil, List.append_nil, text]
  | report =>
      simp only [Bridge.step] at steps
      split_ifs at steps with done
      cases steps
      refine ⟨⟨alive, settled, dumped, written, offset, ?_, fun _ => rfl⟩, ⟨List.prefix_refl _,
        fun _ => rfl, ⟨[], (List.append_nil _).symm⟩, List.prefix_refl _, fun _ => rfl,
        fun _ => ⟨rfl, rfl⟩, rfl, rfl, rfl, rfl, rfl⟩⟩
      intro there isReport
      cases isReport
      exact ⟨done.1, done.2.2.1, done.2.2.2, rfl⟩
  | exit exitCode =>
      simp only [Bridge.step] at steps
      split_ifs at steps with blocked
      cases steps
      rw [not_or, not_or, Option.not_isSome_iff_eq_none] at blocked
      refine ⟨⟨alive, settled, dumped, written, offset, report, ?_⟩, ⟨List.prefix_refl _,
        fun _ => rfl, ⟨[], (List.append_nil _).symm⟩, List.prefix_refl _, ?_,
        fun _ => ⟨rfl, rfl⟩, rfl, rfl, rfl, rfl, rfl⟩⟩
      · intro isZero
        have zero : exitCode = 0 := Option.some.inj isZero
        have notMissing := not_and.mp blocked.2.2 zero
        rwa [Option.isNone_iff_eq_none, ← ne_eq, Option.ne_none_iff_isSome] at notMissing
      · intro known
        rw [blocked.2.1] at known
        cases known
  | _ => cases isFiles

end Files

section Moves

variable {Choice : Type} {calm : Prop} {bridge next : Bridge Choice} {kept count : ℕ}
  {req : ValidRequest} {sources : List (String × PurePath)} {last : List (Option Fields)}
  {phase : MonitorPhase}

theorem Following.inside (following : Following calm bridge kept count) :
    kept ≤ bridge.worker.events.length := by
  have lines : bridge.lines.length ≤ bridge.worker.events.length := by simp [Bridge.lines]
  exact (following.within.trans following.follows.inside).trans lines

theorem Following.files (following : Following calm bridge kept count) (filed : Filed bridge)
    (move : FilesMove bridge next) : Following calm next kept count := by
  have sameState : next.state = bridge.state := congrArg Report.state move.report
  rcases move.lines with ⟨later, lines⟩
  rcases move.text with ⟨more, text⟩
  refine ⟨?_, ?_, following.within, ?_, ?_, ?_⟩
  · rw [lines, ← text, move.offset, move.pending, List.take_append_of_le_length filed.offset]
    exact following.follows.write later
  · rw [move.queue, following.queue, told_of_prefix move.events following.inside]
  · rw [sameState]
    exact following.open_
  · rw [sameState]
    exact following.all
  · rw [sameState]
    exact following.calm

theorem Known.files (known : Known bridge count phase) (move : FilesMove bridge next) :
    Known next count phase := by
  cases phase with
  | reading last =>
      cases last with
      | false => trivial
      | true =>
          have isOver : bridge.code.isSome := known
          show next.code.isSome
          rwa [move.code isOver]
  | cutting last =>
      cases last with
      | false => trivial
      | true =>
          rcases known with ⟨isOver, all⟩
          refine ⟨by rwa [move.code isOver], ?_⟩
          intro well
          rw [move.code isOver] at well
          rw [move.offset, (move.still well).1]
          exact all well
  | concluding =>
      rcases known with ⟨isOver, all⟩
      refine ⟨by rwa [move.code isOver], ?_⟩
      intro well
      rw [move.code isOver] at well
      rw [(move.still well).2]
      exact all well
  | _ => trivial

theorem Closed.files (closed : Closed calm req sources bridge last)
    (move : FilesMove bridge next) : Closed calm req sources next last := by
  rcases closed with ⟨kept, failures, inside, queue, outcome⟩
  have sameState : next.state = bridge.state := congrArg Report.state move.report
  have sameError : next.error = bridge.error := congrArg Report.error move.report
  refine ⟨kept, failures, inside.trans move.events.length_le, ?_, ?_⟩
  · rw [move.queue, queue, told_of_prefix move.events inside]
  · cases outcome with
    | cancelled state asked => exact .cancelled (sameState.trans state) asked
    | raised state error => exact .raised (sameState.trans state) (sameError.trans error)
    | concluded isEnded report all =>
        have worker := move.ended isEnded
        refine .concluded (worker ▸ isEnded) ?_ ?_
        · rw [move.report, worker]
          exact report
        · rw [worker]
          exact all

theorem PhaseTold.files (books : PhaseTold calm req sources bridge phase) (filed : Filed bridge)
    (move : FilesMove bridge next) : PhaseTold calm req sources next phase := by
  cases phase with
  | closing => exact Closed.files books move
  | ended => exact Closed.files books move
  | _ =>
      rcases books with ⟨kept, count, following, known⟩
      exact ⟨kept, count, following.files filed move, known.files move⟩

/-- An exception ends a job that was being followed. -/
theorem Following.raise (following : Following calm bridge kept count) (message : String) :
    (bridge.raise req sources message).phase = .closing ∧
      Closed calm req sources (bridge.raise req sources message) [] := by
  unfold Bridge.raise
  split_ifs with cancelled
  · refine ⟨rfl, kept, [], following.inside, ?_, .cancelled cancelled ?_⟩
    · simp [Bridge.goTo, following.queue]
    · exact fun calm => following.calm calm cancelled
  · refine ⟨rfl, kept, _, following.inside, ?_, .raised rfl rfl⟩
    simp [Bridge.put, following.queue]

/-- The job is cancelled while it is followed. -/
theorem Following.cancelled (following : Following calm bridge kept count) (asked : ¬ calm)
    (phase : MonitorPhase) :
    Following calm { bridge with state := .cancelled, phase := phase } kept count :=
  ⟨following.follows, following.queue, following.within, .inr rfl, fun alive => absurd rfl alive,
    fun isCalm => absurd isCalm asked⟩

/-- A job that has come out cannot be cancelled. -/
theorem Closed.not_open (closed : Closed calm req sources bridge last) (filed : Filed bridge) :
    ¬ bridge.isOpen := by
  rcases closed with ⟨kept, failures, _, _, outcome⟩
  cases outcome with
  | cancelled state _ => simp [Bridge.isOpen, state]
  | raised state _ => simp [Bridge.isOpen, state]
  | concluded isEnded report _ =>
      have same : bridge.state = bridge.worker.state := congrArg Report.state report
      have settled := filed.settled isEnded
      rw [Bridge.isOpen, same]
      tauto

theorem PhaseTold.cancel (books : PhaseTold calm req sources bridge bridge.phase)
    (filed : Filed bridge) (asked : ¬ calm) :
    PhaseTold calm req sources bridge.cancel bridge.cancel.phase := by
  unfold Bridge.cancel
  split_ifs with isOpen
  · cases phase : bridge.phase with
    | closing =>
        rw [phase] at books
        exact absurd isOpen (Closed.not_open books filed)
    | ended =>
        rw [phase] at books
        exact absurd isOpen (Closed.not_open books filed)
    | _ =>
        rw [phase] at books
        rcases books with ⟨kept, count, following, known⟩
        exact ⟨kept, count, following.cancelled asked _, known⟩
  · exact books

/-- What has been read follows the file. -/
theorem Following.read {there : List Char} (following : Following calm bridge kept count)
    (isFile : bridge.file = some there) (phase : MonitorPhase) :
    Following calm { bridge with
      pending := bridge.pending ++ there.drop bridge.offset
      offset := there.length
      phase := phase } kept count := by
  have text : bridge.text = there := by rw [Bridge.text, isFile, Option.getD_some]
  refine ⟨?_, following.queue, following.within, following.open_, following.all, following.calm⟩
  have reads := following.follows.read (there.drop bridge.offset)
  rw [text, List.take_append_drop] at reads
  show Follows '\n' bridge.lines count (bridge.text.take there.length) _
  rw [text, List.take_length]
  exact reads

/-- A line that is cut off is the next event. -/
theorem Following.cut {line rest : List Char} (following : Following calm bridge kept count)
    (filed : Filed bridge) (isCut : cut '\n' bridge.pending = some (line, rest)) :
    ∃ event, bridge.worker.events[count]? = some event ∧ line = event.line ∧
      Follows '\n' bridge.lines (count + 1) (bridge.text.take bridge.offset) rest := by
  have written : bridge.text.take bridge.offset <+: terminated '\n' bridge.lines :=
    (List.take_prefix _ _).trans ⟨bridge.unwritten, filed.written⟩
  rcases following.follows.cut (newline_notMem_lines bridge) written isCut with ⟨isLine, follows⟩
  rw [Bridge.lines, List.getElem?_map, Option.map_eq_some_iff] at isLine
  rcases isLine with ⟨event, isEvent, rfl⟩
  refine ⟨event, ?_, rfl, follows⟩
  rw [List.getElem?_take] at isEvent
  split_ifs at isEvent
  exact isEvent

theorem PhaseTold.cutLine {known_ : Bool} (filed : Filed bridge)
    (phase : bridge.phase = .cutting known_)
    (following : Following calm bridge kept count) (known : Known bridge count (.cutting known_)) :
    PhaseTold calm req sources (bridge.cutLine req sources known_)
      (bridge.cutLine req sources known_).phase := by
  unfold Bridge.cutLine
  split
  · next isLast =>
      cases known_ with
      | false =>
          exact ⟨kept, count, ⟨following.follows, following.queue, following.within,
            following.open_, following.all, following.calm⟩, trivial⟩
      | true =>
          refine ⟨kept, count, ⟨following.follows, following.queue, following.within,
            following.open_, following.all, following.calm⟩, known.1, ?_⟩
          intro well
          have complete : bridge.text.take bridge.offset = terminated '\n' bridge.lines := by
            have written := filed.written
            rw [(filed.still well).2.2, List.append_nil] at written
            rw [known.2 well, List.take_length, written]
          have length : bridge.lines.length = bridge.dumped := by
            rw [Bridge.lines, List.length_map, List.length_take]
            exact Nat.min_eq_left filed.dumped
          exact (following.follows.all complete isLast).trans length
  · next line rest isCut =>
      rcases following.cut filed isCut with ⟨event, isEvent, rfl, follows⟩
      dsimp only
      split_ifs with cancelled
      · rw [phase]
        refine ⟨kept, count + 1, ⟨follows, following.queue, following.within.trans (Nat.le_succ _),
          following.open_, fun alive => absurd cancelled alive, following.calm⟩, ?_⟩
        cases known_ with
        | false => trivial
        | true => exact known
      · have same := following.all cancelled
        subst same
        rw [WireEvent.line, loads_dumps]
        dsimp only
        have queue : bridge.queue ++ [event.payload].map some =
            told bridge.worker.events (kept + 1) := by
          rw [following.queue, told, told, List.take_add_one, isEvent, List.map_append]
          rfl
        have isPhase : (Bridge.put { bridge with pending := rest } [event.payload]).phase =
            .cutting known_ := phase
        rw [isPhase]
        refine ⟨kept + 1, kept + 1, ⟨follows, queue, le_rfl, following.open_, fun _ => rfl,
          following.calm⟩, ?_⟩
        cases known_ with
        | false => trivial
        | true => exact known

theorem PhaseTold.conclude (filed : Filed bridge) (following : Following calm bridge kept count)
    (known : Known bridge count .concluding) (fault : Option String) :
    PhaseTold calm req sources (bridge.conclude req sources fault)
      (bridge.conclude req sources fault).phase := by
  have raises (message : String) : PhaseTold calm req sources (bridge.raise req sources message)
      (bridge.raise req sources message).phase := by
    rw [(following.raise message).1]
    exact (following.raise message).2
  unfold Bridge.conclude
  split_ifs with failed
  · exact raises _
  · rw [ne_eq, not_not] at failed
    split
    · exact raises _
    · exact raises _
    · next report isReport =>
        rcases filed.report report isReport with ⟨isEnded, dumped, _, rfl⟩
        refine ⟨kept, [], following.inside, ?_, .concluded isEnded rfl ?_⟩
        · simp [following.queue]
        · intro isCalm
          rw [following.all (following.calm isCalm), known.2 failed, dumped]

theorem Filed.raise (filed : Filed bridge) (message : String) :
    Filed (bridge.raise req sources message) := by
  unfold Bridge.raise
  split_ifs
  · exact { filed with }
  · exact { filed with }

theorem Filed.cancel (filed : Filed bridge) : Filed bridge.cancel := by
  unfold Bridge.cancel
  split_ifs
  · exact { filed with }
  · exact filed

theorem Filed.read {there : List Char} (filed : Filed bridge) (isFile : bridge.file = some there)
    (phase : MonitorPhase) : Filed { bridge with
      pending := bridge.pending ++ there.drop bridge.offset
      offset := there.length
      phase := phase } := by
  have text : bridge.text = there := by rw [Bridge.text, isFile, Option.getD_some]
  refine { filed with offset := ?_ }
  show there.length ≤ bridge.text.length
  rw [text]

theorem Filed.cutLine (filed : Filed bridge) (last : Bool) :
    Filed (bridge.cutLine req sources last) := by
  unfold Bridge.cutLine
  split
  · exact { filed with }
  · next line rest _ =>
      have cut : Filed { bridge with pending := rest } := { filed with }
      dsimp only
      split_ifs
      · exact cut
      · split
        · exact { cut with }
        · exact cut.raise _

theorem Filed.conclude (filed : Filed bridge) (fault : Option String) :
    Filed (bridge.conclude req sources fault) := by
  unfold Bridge.conclude
  split_ifs
  · exact filed.raise _
  · split
    · exact filed.raise _
    · exact filed.raise _
    · exact { filed with }

end Moves

section Runs

variable {Choice : Type} [FileSystem] [ChatFormat] [ValidationGates] {calm : Prop}
  {surroundings : Surroundings Choice} {req : ValidRequest} {root : PurePath}
  {sources : List (String × PurePath)} {bridge next : Bridge Choice}
  {event : BridgeEvent Choice} {events : List (BridgeEvent Choice)}

/-- A step of the daemon, which leaves the worker alone. -/
theorem PhaseTold.daemon (filed : Filed bridge)
    (books : PhaseTold calm req sources bridge bridge.phase) (isDaemon : event.isFiles = false)
    (quiet : calm → event.isCalm = true)
    (steps : bridge.step surroundings req root sources event = some next) :
    Filed next ∧ PhaseTold calm req sources next next.phase := by
  cases event with
  | cancel =>
      cases steps
      exact ⟨filed.cancel, books.cancel filed fun isCalm => by cases quiet isCalm⟩
  | shutdown =>
      simp only [Bridge.step] at steps
      split_ifs at steps with isOver
      cases steps
      refine ⟨{ filed with }, ?_⟩
      have asked : ¬ calm := fun isCalm => by cases quiet isCalm
      cases phase : bridge.phase with
      | closing => exact absurd (.inl phase) isOver
      | ended => exact absurd (.inr phase) isOver
      | _ =>
          rw [phase] at books
          rcases books with ⟨kept, count, following, _⟩
          refine ⟨kept, [], following.inside, ?_, .cancelled rfl asked⟩
          simp [following.queue]
  | start fault =>
      simp only [Bridge.step] at steps
      split at steps
      · next phase =>
          cases steps
          rw [phase] at books
          rcases books with ⟨kept, count, following, _⟩
          exact ⟨{ filed with }, kept, count, { following with }, trivial⟩
      · next message phase =>
          cases steps
          rw [phase] at books
          rcases books with ⟨kept, count, following, _⟩
          refine ⟨filed.raise message, ?_⟩
          rw [(following.raise message).1]
          exact (following.raise message).2
      · cases steps
  | look noticed =>
      simp only [Bridge.step] at steps
      split at steps
      · next phase =>
          rw [phase] at books
          rcases books with ⟨kept, count, following, _⟩
          split_ifs at steps
          · cases steps
            exact ⟨{ filed with }, kept, count, { following with }, trivial⟩
          · cases steps
            exact ⟨{ filed with }, kept, count, { following with }, trivial⟩
      · cases steps
  | leave =>
      simp only [Bridge.step] at steps
      split at steps
      · next phase =>
          rw [phase] at books
          rcases books with ⟨kept, count, following, _⟩
          split_ifs at steps with cancelled
          · cases steps
            refine ⟨{ filed with }, kept, [], following.inside, ?_, .cancelled cancelled ?_⟩
            · simp [Bridge.goTo, following.queue]
            · exact fun isCalm => following.calm isCalm cancelled
          · cases steps
            exact ⟨{ filed with }, kept, count, { following with }, trivial⟩
      · cases steps
  | wait =>
      simp only [Bridge.step] at steps
      split at steps
      · next phase =>
          rw [phase] at books
          rcases books with ⟨kept, count, following, _⟩
          split_ifs at steps with isOver
          cases steps
          exact ⟨{ filed with }, kept, count, { following with }, isOver⟩
      · cases steps
  | read fault =>
      simp only [Bridge.step] at steps
      split at steps
      · next message phase =>
          cases steps
          rw [phase] at books
          have raised : ∃ kept count, Following calm bridge kept count := by
            rcases books with ⟨kept, count, following, _⟩
            exact ⟨kept, count, following⟩
          rcases raised with ⟨kept, count, following⟩
          refine ⟨filed.raise message, ?_⟩
          rw [(following.raise message).1]
          exact (following.raise message).2
      · next last phase noFile =>
          cases steps
          rw [phase] at books
          rcases books with ⟨kept, count, following, known⟩
          refine ⟨{ filed with }, kept, count, { following with }, ?_⟩
          cases last with
          | false => trivial
          | true =>
              refine ⟨known, fun _ => ?_⟩
              have offset := filed.offset
              have empty : bridge.text = [] := by rw [Bridge.text, noFile, Option.getD_none]
              have same : (bridge.goTo (.cutting true)).text = [] := empty
              rw [empty] at offset
              rw [same]
              exact Nat.le_zero.mp offset
      · next last there phase isFile =>
          cases steps
          rw [phase] at books
          rcases books with ⟨kept, count, following, known⟩
          refine ⟨filed.read isFile _, kept, count, following.read isFile _, ?_⟩
          cases last with
          | false => trivial
          | true =>
              refine ⟨known, fun _ => ?_⟩
              show there.length = bridge.text.length
              rw [Bridge.text, isFile, Option.getD_some]
      · cases steps
  | cutLine =>
      simp only [Bridge.step] at steps
      split at steps
      · next last phase =>
          cases steps
          rw [phase] at books
          rcases books with ⟨kept, count, following, known⟩
          exact ⟨filed.cutLine last, PhaseTold.cutLine filed phase following known⟩
      · cases steps
  | conclude fault =>
      simp only [Bridge.step] at steps
      split at steps
      · next phase =>
          cases steps
          rw [phase] at books
          rcases books with ⟨kept, count, following, known⟩
          exact ⟨filed.conclude fault, PhaseTold.conclude filed following known fault⟩
      · cases steps
  | close =>
      simp only [Bridge.step] at steps
      split at steps
      · next phase =>
          cases steps
          rw [phase] at books
          rcases books with ⟨kept, failures, inside, queue, outcome⟩
          refine ⟨{ filed with }, kept, failures, inside, ?_, ?_⟩
          · show bridge.queue ++ [none] = _
            rw [queue, List.append_nil]
          · cases outcome with
            | cancelled state asked => exact .cancelled state asked
            | raised state error => exact .raised state error
            | concluded isEnded report all => exact .concluded isEnded report all
      · cases steps
  | _ => cases isDaemon

theorem PhaseTold.step (filed : Filed bridge)
    (books : PhaseTold calm req sources bridge bridge.phase) (quiet : calm → event.isCalm = true)
    (steps : bridge.step surroundings req root sources event = some next) :
    Filed next ∧ PhaseTold calm req sources next next.phase := by
  cases isFiles : event.isFiles with
  | false => exact PhaseTold.daemon filed books isFiles quiet steps
  | true =>
      rcases filesMove filed isFiles steps with ⟨filedNext, move⟩
      refine ⟨filedNext, ?_⟩
      rw [move.phase]
      exact books.files filed move

omit [FileSystem] [ChatFormat] [ValidationGates] in
theorem phaseTold_start (calm : Prop) (req : ValidRequest) (sources : List (String × PurePath)) :
    Filed (Bridge.start req sources : Bridge Choice) ∧
      PhaseTold calm req sources (Bridge.start req sources : Bridge Choice) .starting := by
  refine ⟨⟨nofun, nofun, Nat.le_refl _, rfl, Nat.le_refl _, nofun, nofun⟩, 0, 0, ⟨?_, rfl,
    Nat.le_refl _, .inl rfl, fun _ => rfl, fun _ => nofun⟩, trivial⟩
  exact Follows.nil _ _

theorem phaseTold_run
    (runs : (bridgeSystem surroundings req root sources).run (.start req sources) events =
      some bridge) :
    Filed bridge ∧
      PhaseTold (∀ event ∈ events, event.isCalm = true) req sources bridge bridge.phase := by
  have keeps : ∀ (bridge : Bridge Choice) (event : BridgeEvent Choice) (next : Bridge Choice),
      ((∀ event ∈ events, event.isCalm = true) → event.isCalm = true) →
        Filed bridge ∧
          PhaseTold (∀ event ∈ events, event.isCalm = true) req sources bridge bridge.phase →
        (bridgeSystem surroundings req root sources).step bridge event = some next →
        Filed next ∧
          PhaseTold (∀ event ∈ events, event.isCalm = true) req sources next next.phase :=
    fun _ _ _ quiet books steps => PhaseTold.step books.1 books.2 quiet steps
  exact System.run_of_kind _ keeps (fun event isEvent isCalm => isCalm event isEvent)
    (phaseTold_start _ req sources) runs

omit [FileSystem] [ChatFormat] [ValidationGates] in
@[simp] theorem raise_worker (bridge : Bridge Choice) (message : String) :
    (Bridge.raise req sources bridge message).worker = bridge.worker := by
  unfold Bridge.raise
  split_ifs
  · rfl
  · rfl

omit [FileSystem] [ChatFormat] [ValidationGates] in
theorem cutLine_worker (last : Bool) (bridge : Bridge Choice) :
    (bridge.cutLine req sources last).worker = bridge.worker := by
  unfold Bridge.cutLine
  split
  · rfl
  · dsimp only
    split_ifs
    · rfl
    · split
      · rfl
      · apply raise_worker

omit [FileSystem] [ChatFormat] [ValidationGates] in
theorem conclude_worker (bridge : Bridge Choice) (fault : Option String) :
    (bridge.conclude req sources fault).worker = bridge.worker := by
  unfold Bridge.conclude
  split_ifs
  · apply raise_worker
  · split
    · apply raise_worker
    · apply raise_worker
    · rfl

/-- The worker makes a step of its own, or none. -/
theorem worker_of_step (steps : bridge.step surroundings req root sources event = some next) :
    next.worker = bridge.worker ∨ ∃ event, event.isCancel = false ∧
      JobRun.step surroundings req root sources bridge.worker event = some next.worker := by
  cases event with
  | work event =>
      simp only [Bridge.step] at steps
      split_ifs at steps with blocked
      rcases Option.map_eq_some_iff.mp steps with ⟨worker, works, rfl⟩
      rw [not_or, Bool.not_eq_true] at blocked
      exact .inr ⟨event, blocked.2, works⟩
  | cutLine =>
      left
      simp only [Bridge.step] at steps
      split at steps
      · cases steps
        apply cutLine_worker
      · cases steps
  | conclude fault =>
      left
      simp only [Bridge.step] at steps
      split at steps
      · cases steps
        apply conclude_worker
      · cases steps
  | cancel =>
      left
      cases steps
      unfold Bridge.cancel
      split_ifs
      · rfl
      · rfl
  | write length =>
      left
      rcases Option.map_eq_some_iff.mp steps with ⟨there, _, rfl⟩
      rfl
  | start fault | read fault =>
      left
      simp only [Bridge.step] at steps
      split at steps <;> cases steps <;> first | rfl | apply raise_worker
  | look noticed | leave | wait =>
      left
      simp only [Bridge.step] at steps
      split at steps
      · split_ifs at steps <;> cases steps <;> rfl
      · cases steps
  | dump | close =>
      left
      simp only [Bridge.step] at steps
      split at steps
      · cases steps
        rfl
      · cases steps
  | openFile | report | exit code | shutdown =>
      left
      simp only [Bridge.step] at steps
      split_ifs at steps
      cases steps
      rfl

/-- The worker of a process goes through a run of the job. -/
theorem workerReachable : (bridgeSystem surroundings req root sources).Invariant fun bridge =>
    (jobSystem surroundings req root sources).Reachable bridge.worker where
  initial bridge isInitial := by
    cases isInitial
    exact .initial rfl
  step bridge event next reachable steps := by
    rcases worker_of_step steps with same | ⟨event, _, works⟩
    · rw [same]
      exact reachable
    · have runs : (jobSystem surroundings req root sources).run bridge.worker [event] =
          some next.worker := by
        simpa [jobSystem] using works
      exact reachable.run runs

omit [FileSystem] [ChatFormat] [ValidationGates] in
/-- A job that has completed has a worker that has. -/
theorem PhaseTold.completed (books : PhaseTold calm req sources bridge bridge.phase)
    (completed : bridge.state = .completed) :
    bridge.worker.phase.isEnded = true ∧ bridge.worker.state = .completed := by
  have closes {last : List (Option Fields)} (closed : Closed calm req sources bridge last) :
      bridge.worker.phase.isEnded = true ∧ bridge.worker.state = .completed := by
    rcases closed with ⟨kept, failures, _, _, outcome⟩
    cases outcome with
    | cancelled state _ => cases completed.symm.trans state
    | raised state _ => cases completed.symm.trans state
    | concluded isEnded report _ =>
        refine ⟨isEnded, ?_⟩
        rw [Report.mk.injEq] at report
        exact report.1.symm.trans completed
  cases phase : bridge.phase with
  | closing =>
      rw [phase] at books
      exact closes books
  | ended =>
      rw [phase] at books
      exact closes books
  | _ =>
      rw [phase] at books
      rcases books with ⟨kept, count, following, _⟩
      have open_ := following.open_
      simp [completed] at open_

omit [FileSystem] [ChatFormat] [ValidationGates] in
/-- What is queued was reported by the worker, or is the failure of a source. -/
theorem PhaseTold.queued {fields : Fields} (books : PhaseTold calm req sources bridge bridge.phase)
    (isQueued : some fields ∈ bridge.queue) :
    (∃ event ∈ bridge.worker.events, event.payload = fields) ∨
      ∃ message entry, fields = Bridge.failure req message entry := by
  have isTold {count : ℕ} (there : some fields ∈ told bridge.worker.events count) :
      ∃ event ∈ bridge.worker.events, event.payload = fields := by
    rcases List.mem_map.mp there with ⟨event, isEvent, same⟩
    exact ⟨event, List.mem_of_mem_take isEvent, Option.some.inj same⟩
  have closes {last : List (Option Fields)} (isLast : some fields ∉ last)
      (closed : Closed calm req sources bridge last) :
      (∃ event ∈ bridge.worker.events, event.payload = fields) ∨
        ∃ message entry, fields = Bridge.failure req message entry := by
    rcases closed with ⟨kept, failures, _, queue, outcome⟩
    rw [queue, List.mem_append, List.mem_append] at isQueued
    rcases isQueued with (there | failed) | ended
    · exact .inl (isTold there)
    · cases outcome with
      | cancelled | concluded => simp at failed
      | @raised message state error =>
          simp only [List.map_map, List.mem_map, Function.comp_apply, Option.some.injEq] at failed
          rcases failed with ⟨entry, _, same⟩
          exact .inr ⟨message, entry, same.symm⟩
    · exact absurd ended isLast
  cases phase : bridge.phase with
  | closing =>
      rw [phase] at books
      exact closes List.not_mem_nil books
  | ended =>
      rw [phase] at books
      exact closes (by simp) books
  | _ =>
      rw [phase] at books
      rcases books with ⟨kept, count, following, _⟩
      rw [following.queue] at isQueued
      exact .inl (isTold isQueued)

/-- Whatever the schedule, and whenever the worker dies, the queue is a beginning of what the
worker has reported, and behind it at most the failure of every source. At the end all of it was
told, unless an exception or somebody ended the job. -/
theorem told_in_order
    (runs : (bridgeSystem surroundings req root sources).run (.start req sources) events =
      some bridge) :
    ∃ kept failures, kept ≤ bridge.worker.events.length ∧
      bridge.queue = told bridge.worker.events kept ++ failures.map some ++
        (if bridge.phase = .ended then [none] else []) ∧
      (bridge.state ≠ .failed → failures = []) ∧
      (bridge.phase = .ended →
        Outcome (∀ event ∈ events, event.isCalm = true) req sources bridge kept failures) := by
  have books := (phaseTold_run runs).2
  have closes {last : List (Option Fields)}
      (closed : Closed (∀ event ∈ events, event.isCalm = true) req sources bridge last) :
      ∃ kept failures, kept ≤ bridge.worker.events.length ∧
        bridge.queue = told bridge.worker.events kept ++ failures.map some ++ last ∧
        (bridge.state ≠ .failed → failures = []) ∧
        Outcome (∀ event ∈ events, event.isCalm = true) req sources bridge kept failures := by
    rcases closed with ⟨kept, failures, inside, queue, outcome⟩
    refine ⟨kept, failures, inside, queue, ?_, outcome⟩
    intro notFailed
    cases outcome with
    | cancelled _ _ => rfl
    | raised state _ => exact absurd state notFailed
    | concluded _ _ _ => rfl
  cases phase : bridge.phase with
  | closing =>
      rw [phase] at books
      rcases closes books with ⟨kept, failures, inside, queue, unfailed, _⟩
      exact ⟨kept, failures, inside, queue, unfailed, nofun⟩
  | ended =>
      rw [phase] at books
      rcases closes books with ⟨kept, failures, inside, queue, unfailed, outcome⟩
      exact ⟨kept, failures, inside, queue, unfailed, fun _ => outcome⟩
  | _ =>
      rw [phase] at books
      rcases books with ⟨kept, count, following, _⟩
      refine ⟨kept, [], following.inside, ?_, fun _ => rfl, nofun⟩
      simp [following.queue]

end Runs

section Samples

/-- The process of the job. A line comes in two pieces, and the daemon looks in between. -/
def processEvents : List (BridgeEvent Unit) :=
  [.start none, .openFile] ++ taggingEvents.map .work ++
    [.dump, .write 200, .look false, .read none, .cutLine, .cutLine, .dump, .write 60, .look false,
      .read none, .cutLine, .write 200, .dump, .write 200, .report, .exit 0, .look true, .leave,
      .wait, .read none, .cutLine, .cutLine, .cutLine, .conclude none, .close]

theorem tagging_told :
    ∃ bridge, (bridgeSystem quietDesk tagging ⟨true, ["in"]⟩ taggingSources).run
        (.start tagging taggingSources) processEvents = some bridge ∧
      bridge.state = .completed ∧
      bridge.queue = told bridge.worker.events bridge.worker.events.length ++ [none] := by
  have ends : ((bridgeSystem quietDesk tagging ⟨true, ["in"]⟩ taggingSources).run
      (.start tagging taggingSources) processEvents).map
        (fun bridge => (bridge.state, bridge.phase)) = some (.completed, .ended) := by
    decide +kernel
  rcases Option.map_eq_some_iff.mp ends with ⟨bridge, runs, facts⟩
  rw [Prod.mk.injEq] at facts
  rcases told_in_order runs with ⟨kept, failures, _, queue, _, outcome⟩
  refine ⟨bridge, runs, facts.1, ?_⟩
  rw [if_pos facts.2] at queue
  have calm : ∀ event ∈ processEvents, event.isCalm = true := by decide
  cases outcome facts.2 with
  | cancelled state asked => exact absurd calm asked
  | raised state _ => cases facts.1.symm.trans state
  | concluded _ _ all =>
      rw [queue, all calm]
      rw [List.map_nil, List.append_nil]

end Samples

end Batchalign.Desktop
