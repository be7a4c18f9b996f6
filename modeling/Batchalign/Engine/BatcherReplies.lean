import Batchalign.Engine.Batcher

/-!
# Every batch item is answered once

The books of the loop are what its events preserve: the three vectors hold the
collected misses in step, every received item is either answered or collected,
and every reply has a reason. What a phase says about the batch is kept apart
from them. `Fires` lists once what an event can do; the invariants and the measure
are each a case analysis of it.
-/

namespace Batchalign.Engine

open Transition BatcherState

section Fires

variable {Cache Input Output Progress : Type} {ops : CacheOps Cache Input Output}
  {backendName : String} {maxSize : ℕ}

/-- What the events do in the states that allow them. -/
inductive Fires (ops : CacheOps Cache Input Output) (backendName : String) (maxSize : ℕ)
    (state : BatcherState Cache Input Output Progress) :
    BatcherEvent Cache Input Output Progress → BatcherState Cache Input Output Progress →
      Prop where
  | send (item : BatchItem Input Progress) (isOpen : ¬state.closed = true)
      (fresh : item.reply ∉ state.sent.map BatchItem.reply) :
      Fires ops backendName maxSize state (.send item)
        { state with queue := state.queue ++ [item], sent := state.sent ++ [item] }
  | close (isOpen : ¬state.closed = true) :
      Fires ops backendName maxSize state .close { state with closed := true }
  | external (cache : Cache) :
      Fires ops backendName maxSize state (.external cache) { state with cache := cache }
  | receiveFirst {item queue} (isIdle : state.phase = .idle)
      (queued : state.queue = item :: queue) :
      Fires ops backendName maxSize state .receive
        ((state.accept ops backendName item queue).afterFirst maxSize)
  | receiveMore {item queue} {collecting : Phase Input Output}
      (isCollecting : state.phase = collecting)
      (collects : collecting = .window ∨ collecting = .drain)
      (queued : state.queue = item :: queue) :
      Fires ops backendName maxSize state .receive
        ((state.accept ops backendName item queue).collectOrCall maxSize collecting)
  | expire (isWindow : state.phase = .window) :
      Fires ops backendName maxSize state .expire { state with phase := .calling }
  | exit (isIdle : state.phase = .idle) (empty : state.queue = [])
      (isClosed : state.closed = true) :
      Fires ops backendName maxSize state .drained { state with phase := .exited }
  | cutShort (isWindow : state.phase = .window) :
      Fires ops backendName maxSize state .drained { state with phase := .calling }
  | drained (isDrain : state.phase = .drain) :
      Fires ops backendName maxSize state .drained
        { state with phase := if state.freshInputs.isEmpty then .idle else .calling }
  | returned (outcome : Outcome Output) (isCalling : state.phase = .calling) :
      Fires ops backendName maxSize state (.returned outcome)
        (state.distribute backendName outcome)
  | stored {toCache : List (Input × Output)} (isStoring : state.phase = .storing toCache) :
      Fires ops backendName maxSize state .stored (state.store ops backendName toCache)

theorem Fires.of_step {state next : BatcherState Cache Input Output Progress}
    {event : BatcherEvent Cache Input Output Progress}
    (steps : BatcherState.step ops backendName maxSize state event = some next) :
    Fires ops backendName maxSize state event next := by
  cases event with
  | send item =>
      simp only [BatcherState.step] at steps
      split at steps
      · cases steps
      · rename_i allowed
        cases steps
        exact .send item (not_or.mp allowed).1 (not_or.mp allowed).2
  | close =>
      simp only [BatcherState.step] at steps
      split at steps
      · cases steps
      · rename_i isOpen
        cases steps
        exact .close isOpen
  | external cache =>
      cases steps
      exact .external cache
  | receive =>
      simp only [BatcherState.step] at steps
      split at steps
      · rename_i isIdle queued
        cases steps
        exact .receiveFirst isIdle queued
      · rename_i isWindow queued
        cases steps
        exact .receiveMore isWindow (Or.inl rfl) queued
      · rename_i isDrain queued
        cases steps
        exact .receiveMore isDrain (Or.inr rfl) queued
      · cases steps
  | expire =>
      simp only [BatcherState.step] at steps
      split at steps
      · rename_i isWindow
        cases steps
        exact .expire isWindow
      · cases steps
  | drained =>
      simp only [BatcherState.step] at steps
      split at steps
      · rename_i isIdle empty
        split at steps
        · rename_i isClosed
          cases steps
          exact .exit isIdle empty isClosed
        · cases steps
      · rename_i isWindow _
        split at steps
        · cases steps
          exact .cutShort isWindow
        · cases steps
      · rename_i isDrain _
        cases steps
        exact .drained isDrain
      · cases steps
  | returned outcome =>
      simp only [BatcherState.step] at steps
      split at steps
      · rename_i isCalling
        cases steps
        exact .returned outcome isCalling
      · cases steps
  | stored =>
      simp only [BatcherState.step] at steps
      split at steps
      · rename_i isStoring
        cases steps
        exact .stored isStoring
      · cases steps

end Fires

section Books

variable {Cache Input Output Progress : Type} (ops : CacheOps Cache Input Output)
  (backendName : String)

/-- The output stands at the index that the item had in a batch that was sent. -/
def FromBatch (state : BatcherState Cache Input Output Progress)
    (item : BatchItem Input Progress) (output : Output) : Prop :=
  ∃ call ∈ state.calls, ∃ outputs,
    batchResult backendName call.inputs.length call.outcome = .ok outputs ∧
    ∃ index : ℕ, call.items[index]? = some item ∧ outputs[index]? = some output

/-- The error is that of a batch the item was in. -/
def FailedInBatch (state : BatcherState Cache Input Output Progress)
    (item : BatchItem Input Progress) (error : BAError) : Prop :=
  ∃ call ∈ state.calls,
    batchResult backendName call.inputs.length call.outcome = .error error ∧ item ∈ call.items

/-- A reply goes to a received item: with the cached value it was looked up to, with its own
output, or with the error of its batch. -/
def Justified (state : BatcherState Cache Input Output Progress)
    (reply : ℕ × BAResult Output) : Prop :=
  ∃ item cache, (item, cache) ∈ state.received ∧ item.reply = reply.1 ∧
    match reply.2 with
    | .ok output =>
        ops.get cache backendName item.input = some output ∨
          FromBatch backendName state item output
    | .error error => FailedInBatch backendName state item error

structure Books (state : BatcherState Cache Input Output Progress) : Prop where
  distinct : (state.sent.map BatchItem.reply).Nodup
  fifo : state.sent = state.received.map Prod.fst ++ state.queue
  inputs : state.freshInputs = state.collected.map BatchItem.input
  channels : state.freshReplies = state.collected.map BatchItem.reply
  progress : state.freshProgress = state.collected.map BatchItem.progress
  answered : (state.received.map fun entry => entry.1.reply).Perm
    (state.replies.map Prod.fst ++ state.freshReplies)
  missed : ∀ item ∈ state.collected, ∃ cache, (item, cache) ∈ state.received ∧
    ops.get cache backendName item.input = none
  justified : ∀ reply ∈ state.replies, Justified ops backendName state reply
  called : ∀ call ∈ state.calls, call.inputs = call.items.map BatchItem.input

variable {ops backendName}

/-- Growing histories keep the reasons of the replies. -/
theorem Justified.mono {state next : BatcherState Cache Input Output Progress}
    {reply : ℕ × BAResult Output} (justified : Justified ops backendName state reply)
    (received : state.received ⊆ next.received) (calls : state.calls ⊆ next.calls) :
    Justified ops backendName next reply := by
  rcases justified with ⟨item, cache, isReceived, channel, reason⟩
  refine ⟨item, cache, received isReceived, channel, ?_⟩
  cases result : reply.2 with
  | ok output =>
      simp only [result] at reason ⊢
      rcases reason with cached | ⟨call, isCall, fromCall⟩
      · left
        exact cached
      · right
        exact ⟨call, calls isCall, fromCall⟩
  | error error =>
      simp only [result] at reason ⊢
      rcases reason with ⟨call, isCall, fromCall⟩
      exact ⟨call, calls isCall, fromCall⟩

variable {state : BatcherState Cache Input Output Progress}

theorem Books.withPhase (books : Books ops backendName state) (phase : Phase Input Output) :
    Books ops backendName { state with phase := phase } :=
  ⟨books.distinct, books.fifo, books.inputs, books.channels, books.progress, books.answered,
    books.missed, books.justified, books.called⟩

theorem Books.withClosed (books : Books ops backendName state) (closed : Bool) :
    Books ops backendName { state with closed := closed } :=
  ⟨books.distinct, books.fifo, books.inputs, books.channels, books.progress, books.answered,
    books.missed, books.justified, books.called⟩

theorem Books.withCache (books : Books ops backendName state) (cache : Cache) :
    Books ops backendName { state with cache := cache } :=
  ⟨books.distinct, books.fifo, books.inputs, books.channels, books.progress, books.answered,
    books.missed, books.justified, books.called⟩

theorem Books.send (books : Books ops backendName state) {item : BatchItem Input Progress}
    (fresh : item.reply ∉ state.sent.map BatchItem.reply) :
    Books ops backendName
      { state with queue := state.queue ++ [item], sent := state.sent ++ [item] } where
  distinct := by
    rw [List.map_append]
    apply List.Nodup.append books.distinct (by simp)
    simpa using fresh
  fifo := by
    simp only [books.fifo, List.append_assoc]
  inputs := books.inputs
  channels := books.channels
  progress := books.progress
  answered := books.answered
  missed := books.missed
  justified := books.justified
  called := books.called

theorem Books.accept (books : Books ops backendName state) {item : BatchItem Input Progress}
    {queue : List (BatchItem Input Progress)} (queued : state.queue = item :: queue) :
    Books ops backendName (state.accept ops backendName item queue) := by
  have fifo : state.sent =
      (state.received ++ [(item, state.cache)]).map Prod.fst ++ queue := by
    simp [books.fifo, queued]
  have grown : state.received ⊆ state.received ++ [(item, state.cache)] :=
    List.subset_append_left _ _
  have last : (item, state.cache) ∈ state.received ++ [(item, state.cache)] := by simp
  cases found : ops.get state.cache backendName item.input with
  | some cached =>
      simp only [BatcherState.accept, found]
      refine ⟨books.distinct, fifo, books.inputs, books.channels, books.progress, ?_, ?_, ?_,
        books.called⟩
      · have before := books.answered.append_right [item.reply]
        simp only [List.map_append, List.map_cons, List.map_nil, List.append_assoc] at before ⊢
        apply before.trans
        apply List.Perm.append_left
        exact List.perm_append_comm
      · intro missedItem isCollected
        rcases books.missed missedItem isCollected with ⟨cache, isReceived, miss⟩
        exact ⟨cache, grown isReceived, miss⟩
      · intro reply replied
        rcases List.mem_append.mp replied with old | new
        · exact (books.justified reply old).mono grown (List.Subset.refl _)
        · simp only [List.mem_singleton] at new
          subst new
          exact ⟨item, state.cache, last, rfl, Or.inl found⟩
  | none =>
      simp only [BatcherState.accept, found]
      refine ⟨books.distinct, fifo, ?_, ?_, ?_, ?_, ?_, ?_, books.called⟩
      · simp [books.inputs]
      · simp [books.channels]
      · simp [books.progress]
      · have before := books.answered.append_right [item.reply]
        simpa using before
      · intro missedItem isCollected
        rcases List.mem_append.mp isCollected with old | new
        · rcases books.missed missedItem old with ⟨cache, isReceived, miss⟩
          exact ⟨cache, grown isReceived, miss⟩
        · simp only [List.mem_singleton] at new
          subst new
          exact ⟨state.cache, last, found⟩
      · intro reply replied
        exact (books.justified reply replied).mono grown (List.Subset.refl _)

theorem batchResult_ok_length {n : ℕ} {outcome : Outcome Output} {outputs : List Output}
    (isOk : batchResult backendName n outcome = .ok outputs) : outputs.length = n := by
  cases outcome with
  | outputs given =>
      simp only [batchResult] at isOk
      split at isOk
      · cases isOk
        assumption
      · cases isOk
  | failed error => cases isOk
  | panicked joinError => cases isOk

/-- A finished call answers every channel of the batch, in order. -/
theorem batchReplies_map_fst {freshReplies : List ℕ} {freshInputs : List Input}
    (inStep : freshReplies.length = freshInputs.length) {result : BAResult (List Output)}
    (fits : ∀ outputs, result = .ok outputs → outputs.length = freshInputs.length) :
    (batchReplies freshReplies freshInputs result).map Prod.fst = freshReplies := by
  cases result with
  | ok outputs =>
      have outputsFit := fits outputs rfl
      simp only [batchReplies, List.map_map]
      apply List.ext_getElem
      · simp [inStep, outputsFit]
      · intro index _ _
        simp
  | error error => simp [batchReplies, Function.comp_def]

/-- The reply at an index of a good batch goes to the item at that index. -/
theorem mem_batchReplies_ok {collected : List (BatchItem Input Progress)}
    {outputs : List Output} {reply : ℕ × BAResult Output}
    (replied : reply ∈ batchReplies (collected.map BatchItem.reply)
      (collected.map BatchItem.input) (.ok outputs)) :
    ∃ (index : ℕ) (item : BatchItem Input Progress) (output : Output),
      collected[index]? = some item ∧ outputs[index]? = some output ∧
        reply = (item.reply, .ok output) := by
  rcases List.mem_map.mp replied with ⟨answer, paired, rfl⟩
  rcases List.mem_iff_getElem.mp paired with ⟨index, inside, rfl⟩
  simp only [List.length_zip, List.length_map, lt_min_iff] at inside
  refine ⟨index, collected[index], outputs[index], ?_, ?_, ?_⟩
  · exact List.getElem?_eq_getElem inside.1.1
  · exact List.getElem?_eq_getElem inside.2
  · simp

theorem Books.distribute (books : Books ops backendName state) (outcome : Outcome Output) :
    Books ops backendName (state.distribute backendName outcome) := by
  have inStep : state.freshReplies.length = state.freshInputs.length := by
    rw [books.channels, books.inputs, List.length_map, List.length_map]
  have fits : ∀ outputs, batchResult backendName state.freshInputs.length outcome = .ok outputs →
      outputs.length = state.freshInputs.length :=
    fun _ isOk => batchResult_ok_length isOk
  have channels := batchReplies_map_fst inStep fits
  have kept : state.calls ⊆ (state.distribute backendName outcome).calls :=
    List.subset_append_left _ _
  refine ⟨books.distinct, books.fifo, rfl, rfl, rfl, ?_, by simp [BatcherState.distribute], ?_, ?_⟩
  · simp only [BatcherState.distribute, List.map_append, channels, List.append_nil]
    exact books.answered
  · intro reply replied
    rcases List.mem_append.mp replied with old | new
    · exact (books.justified reply old).mono (List.Subset.refl _) kept
    · have isCall : state.finishedCall outcome ∈
          (state.distribute backendName outcome).calls := by
        simp [BatcherState.distribute]
      cases result : batchResult backendName state.freshInputs.length outcome with
      | ok outputs =>
          rw [result, books.channels, books.inputs] at new
          rcases mem_batchReplies_ok new with ⟨index, item, output, atItems, atOutputs, rfl⟩
          rcases books.missed item (List.mem_of_getElem? atItems) with ⟨cache, isReceived, -⟩
          exact ⟨item, cache, isReceived, rfl,
            Or.inr ⟨_, isCall, outputs, result, index, atItems, atOutputs⟩⟩
      | error error =>
          rw [result, books.channels] at new
          simp only [batchReplies, List.mem_map] at new
          rcases new with ⟨channel, ⟨item, isCollected, rfl⟩, rfl⟩
          rcases books.missed item isCollected with ⟨cache, isReceived, -⟩
          exact ⟨item, cache, isReceived, rfl, _, isCall, result, isCollected⟩
  · intro call isCall
    rcases List.mem_append.mp isCall with old | new
    · exact books.called call old
    · simp only [List.mem_singleton] at new
      subst new
      exact books.inputs

theorem Books.fires (books : Books ops backendName state) {maxSize : ℕ}
    {event : BatcherEvent Cache Input Output Progress}
    {next : BatcherState Cache Input Output Progress}
    (fires : Fires ops backendName maxSize state event next) : Books ops backendName next := by
  cases fires with
  | send item isOpen fresh => exact books.send fresh
  | close isOpen => exact books.withClosed true
  | external cache => exact books.withCache cache
  | receiveFirst isIdle queued => exact (books.accept queued).withPhase _
  | receiveMore isCollecting collects queued => exact (books.accept queued).withPhase _
  | expire | exit | cutShort | drained => exact books.withPhase _
  | returned outcome isCalling => exact books.distribute outcome
  | stored isStoring => exact (books.withPhase .idle).withCache _

end Books

section Batches

variable {Cache Input Output Progress : Type} {ops : CacheOps Cache Input Output}
  {backendName : String} {maxSize : ℕ}
  {state next : BatcherState Cache Input Output Progress}

/-- What a phase says about the batch, the channel and the queue. -/
def PhaseFits (maxSize : ℕ) (state : BatcherState Cache Input Output Progress) : Prop :=
  match state.phase with
  | .idle | .storing _ => state.collected = []
  | .window => state.collected ≠ [] ∧ state.collected.length < maxSize
  | .drain => state.collected.length < maxSize
  | .calling => state.collected ≠ [] ∧ state.collected.length ≤ maxSize
  | .exited => state.collected = [] ∧ state.closed = true ∧ state.queue = []

structure Batches (maxSize : ℕ) (state : BatcherState Cache Input Output Progress) : Prop where
  phase : PhaseFits maxSize state
  calls : ∀ call ∈ state.calls, call.items ≠ [] ∧ call.items.length ≤ maxSize

theorem PhaseFits.length_le (fits : PhaseFits maxSize state) :
    state.collected.length ≤ maxSize := by
  simp only [PhaseFits] at fits
  cases phase : state.phase with
  | idle | storing toCache => simp only [phase] at fits; simp [fits]
  | window => simp only [phase] at fits; exact fits.2.le
  | drain => simp only [phase] at fits; exact fits.le
  | calling => simp only [phase] at fits; exact fits.2
  | exited => simp only [phase] at fits; simp [fits.1]

/-- Only the exited loop says anything about the channel. -/
theorem PhaseFits.of_eq (fits : PhaseFits maxSize state) (phase : next.phase = state.phase)
    (collected : next.collected = state.collected)
    (running : state.phase ≠ .exited) : PhaseFits maxSize next := by
  simp only [PhaseFits] at fits ⊢
  rw [phase, collected]
  cases isPhase : state.phase with
  | idle | window | drain | calling | storing toCache => simpa only [isPhase] using fits
  | exited => exact absurd isPhase running

theorem PhaseFits.closed_of_exited (fits : PhaseFits maxSize state)
    (exited : state.phase = .exited) : state.closed = true := by
  rw [PhaseFits, exited] at fits
  exact fits.2.1

/-- The loop condition keeps what the phases say. -/
theorem collectOrCall_fits {draining : Phase Input Output}
    (inputs : state.freshInputs = state.collected.map BatchItem.input)
    (bounded : state.collected.length ≤ maxSize)
    (drains : draining = .drain ∨ draining = .window ∧ state.collected ≠ [])
    (positive : 0 < maxSize) : PhaseFits maxSize (state.collectOrCall maxSize draining) := by
  simp only [BatcherState.collectOrCall]
  rw [inputs, List.length_map]
  by_cases more : state.collected.length < maxSize
  · rw [if_pos more]
    rcases drains with rfl | ⟨rfl, some⟩
    · exact more
    · exact ⟨some, more⟩
  · rw [if_neg more]
    refine ⟨?_, bounded⟩
    intro (empty : state.collected = [])
    simp only [empty, List.length_nil] at more
    exact more positive

theorem accept_collected (ops : CacheOps Cache Input Output) (backendName : String)
    (state : BatcherState Cache Input Output Progress) (item : BatchItem Input Progress)
    (queue : List (BatchItem Input Progress)) :
    (state.accept ops backendName item queue).collected = state.collected ∨
      (state.accept ops backendName item queue).collected = state.collected ++ [item] := by
  cases found : ops.get state.cache backendName item.input with
  | some cached =>
      left
      simp only [BatcherState.accept, found]
  | none =>
      right
      simp only [BatcherState.accept, found]

theorem accept_calls (ops : CacheOps Cache Input Output) (backendName : String)
    (state : BatcherState Cache Input Output Progress) (item : BatchItem Input Progress)
    (queue : List (BatchItem Input Progress)) :
    (state.accept ops backendName item queue).calls = state.calls := by
  cases found : ops.get state.cache backendName item.input <;>
    simp only [BatcherState.accept, found]

theorem accept_fits {item : BatchItem Input Progress}
    {queue : List (BatchItem Input Progress)} (room : state.collected.length < maxSize) :
    (state.accept ops backendName item queue).collected.length ≤ maxSize := by
  rcases accept_collected ops backendName state item queue with same | longer
  · rw [same]
    exact room.le
  · rw [longer]
    simpa using room

theorem accept_nonempty {item : BatchItem Input Progress}
    {queue : List (BatchItem Input Progress)} (some : state.collected ≠ []) :
    (state.accept ops backendName item queue).collected ≠ [] := by
  rcases accept_collected ops backendName state item queue with same | longer
  · rwa [same]
  · simp [longer]

theorem Batches.fires (batches : Batches maxSize state) (books : Books ops backendName state)
    (positive : 0 < maxSize) {event : BatcherEvent Cache Input Output Progress}
    (fires : Fires ops backendName maxSize state event next) : Batches maxSize next := by
  have fits := batches.phase
  cases fires with
  | send item isOpen fresh =>
      refine ⟨fits.of_eq rfl rfl ?_, batches.calls⟩
      intro exited
      exact isOpen (fits.closed_of_exited exited)
  | close isOpen =>
      refine ⟨fits.of_eq rfl rfl ?_, batches.calls⟩
      intro exited
      exact isOpen (fits.closed_of_exited exited)
  | external cache => exact ⟨batches.phase, batches.calls⟩
  | @receiveFirst item queue isIdle queued =>
      rw [PhaseFits, isIdle] at fits
      have room : state.collected.length < maxSize := by simpa [fits] using positive
      have accepted := books.accept queued
      refine ⟨collectOrCall_fits accepted.inputs (accept_fits room) ?_ positive, ?_⟩
      · rw [accepted.inputs, List.isEmpty_map]
        cases collected : (state.accept ops backendName item queue).collected with
        | nil => exact Or.inl rfl
        | cons first rest => exact Or.inr ⟨rfl, List.cons_ne_nil _ _⟩
      · exact (accept_calls ops backendName state item queue).symm ▸ batches.calls
  | @receiveMore item queue collecting isCollecting collects queued =>
      have sameCalls := (accept_calls ops backendName state item queue).symm ▸ batches.calls
      have inputs := (books.accept queued).inputs
      rcases collects with rfl | rfl
      · rw [PhaseFits, isCollecting] at fits
        refine ⟨?_, sameCalls⟩
        apply collectOrCall_fits inputs (accept_fits fits.2) _ positive
        exact Or.inr ⟨rfl, accept_nonempty fits.1⟩
      · rw [PhaseFits, isCollecting] at fits
        refine ⟨?_, sameCalls⟩
        exact collectOrCall_fits inputs (accept_fits fits) (Or.inl rfl) positive
  | expire isWindow | cutShort isWindow =>
      rw [PhaseFits, isWindow] at fits
      exact ⟨⟨fits.1, fits.2.le⟩, batches.calls⟩
  | exit isIdle empty isClosed =>
      rw [PhaseFits, isIdle] at fits
      exact ⟨⟨fits, isClosed, empty⟩, batches.calls⟩
  | drained isDrain =>
      rw [PhaseFits, isDrain] at fits
      refine ⟨?_, batches.calls⟩
      rw [PhaseFits, books.inputs, List.isEmpty_map]
      cases collected : state.collected with
      | nil => rfl
      | cons first rest => exact ⟨List.cons_ne_nil _ _, by simpa [collected] using fits.le⟩
  | returned outcome isCalling =>
      rw [PhaseFits, isCalling] at fits
      constructor
      · simp only [PhaseFits, BatcherState.distribute]
        cases batchResult backendName state.freshInputs.length outcome <;>
          simp [BatcherState.afterCall]
      · intro call isCall
        rcases List.mem_append.mp isCall with old | new
        · exact batches.calls call old
        · simp only [List.mem_singleton] at new
          subst new
          exact fits
  | stored isStoring =>
      rw [PhaseFits, isStoring] at fits
      exact ⟨fits, batches.calls⟩

end Batches

section Progress

variable {Cache Input Output Progress : Type} {ops : CacheOps Cache Input Output}
  {backendName : String} {maxSize : ℕ}
  {state next : BatcherState Cache Input Output Progress}

/-- The events of the loop itself, of the backend and of the clock. -/
def BatcherEvent.isLoop : BatcherEvent Cache Input Output Progress → Prop
  | .send _ | .close | .external _ => False
  | .receive | .expire | .drained | .returned _ | .stored => True

/-- How far a phase is from the end of its round. -/
def Phase.rank : Phase Input Output → ℕ
  | .exited => 0
  | .idle => 1
  | .storing _ => 2
  | .calling => 3
  | .window | .drain => 4

/-- What is left to do: the queue, and the rest of the round. -/
def remaining (state : BatcherState Cache Input Output Progress) : ℕ :=
  5 * state.queue.length + state.phase.rank

theorem accept_queue (ops : CacheOps Cache Input Output) (backendName : String)
    (state : BatcherState Cache Input Output Progress) (item : BatchItem Input Progress)
    (queue : List (BatchItem Input Progress)) :
    (state.accept ops backendName item queue).queue = queue := by
  cases found : ops.get state.cache backendName item.input <;>
    simp only [BatcherState.accept, found]

theorem Phase.rank_le (phase : Phase Input Output) : phase.rank ≤ 4 := by
  cases phase <;> simp [Phase.rank]

/-- Receiving shortens the queue, whatever the phase becomes. -/
theorem remaining_accept {item : BatchItem Input Progress}
    {queue : List (BatchItem Input Progress)} (queued : state.queue = item :: queue)
    (phase : Phase Input Output) (running : 0 < state.phase.rank) :
    remaining { state.accept ops backendName item queue with phase := phase } <
      remaining state := by
  have below := phase.rank_le
  simp only [remaining, accept_queue, queued, List.length_cons]
  omega

theorem remaining_fires {event : BatcherEvent Cache Input Output Progress}
    (isLoop : event.isLoop) (fires : Fires ops backendName maxSize state event next) :
    remaining next < remaining state := by
  cases fires with
  | send | close | external => cases isLoop
  | receiveFirst isIdle queued =>
      apply remaining_accept queued
      simp [isIdle, Phase.rank]
  | receiveMore isCollecting collects queued =>
      apply remaining_accept queued
      rcases collects with rfl | rfl <;> simp [isCollecting, Phase.rank]
  | expire isWindow | cutShort isWindow => simp [remaining, isWindow, Phase.rank]
  | exit isIdle empty isClosed => simp [remaining, isIdle, Phase.rank]
  | drained isDrain =>
      cases state.freshInputs.isEmpty <;> simp [remaining, isDrain, Phase.rank]
  | returned outcome isCalling =>
      simp only [remaining, isCalling, BatcherState.distribute]
      cases batchResult backendName state.freshInputs.length outcome <;>
        simp [BatcherState.afterCall, Phase.rank]
  | stored isStoring => simp [remaining, isStoring, BatcherState.store, Phase.rank]

/-- The loop waits only at its top, for an item or for the channel to close. -/
theorem waiting_at_top (stuck : ∀ event : BatcherEvent Cache Input Output Progress,
    event.isLoop → BatcherState.step ops backendName maxSize state event = none) :
    state.phase = .exited ∨
      state.phase = .idle ∧ state.queue = [] ∧ state.closed = false := by
  cases phase : state.phase with
  | exited => exact Or.inl rfl
  | idle =>
      right
      cases queue : state.queue with
      | nil =>
          have waits := stuck .drained trivial
          simp only [BatcherState.step, phase, queue] at waits
          refine ⟨rfl, rfl, ?_⟩
          cases closed : state.closed with
          | false => rfl
          | true => simp [closed] at waits
      | cons item rest =>
          have receives := stuck .receive trivial
          simp [BatcherState.step, phase, queue] at receives
  | window =>
      have expires := stuck .expire trivial
      simp [BatcherState.step, phase] at expires
  | drain =>
      cases queue : state.queue with
      | nil =>
          have drains := stuck .drained trivial
          simp [BatcherState.step, phase, queue] at drains
      | cons item rest =>
          have receives := stuck .receive trivial
          simp [BatcherState.step, phase, queue] at receives
  | calling =>
      have returns := stuck (.returned (.failed .cancelled)) trivial
      simp [BatcherState.step, phase] at returns
  | storing toCache =>
      have stores := stuck .stored trivial
      simp [BatcherState.step, phase] at stores

end Progress

section Answers

variable {Cache Input Output Progress : Type}

/-- What a dispatcher can rely on in a state. -/
structure AnsweredOnce (ops : CacheOps Cache Input Output) (backendName : String)
    (maxSize : ℕ) (state : BatcherState Cache Input Output Progress) : Prop where
  once : ∀ entry ∈ state.received, (state.replies.map Prod.fst).count entry.1.reply =
    if entry.1.reply ∈ state.freshReplies then 0 else 1
  own : ∀ reply ∈ state.replies, Justified ops backendName state reply
  inStep : ∀ call ∈ state.calls, call.inputs = call.items.map BatchItem.input
  bounded : ∀ call ∈ state.calls, call.inputs.length ≤ maxSize
  collecting : state.freshInputs.length ≤ maxSize
  settled : state.phase = .idle ∨ state.phase = .exited → state.freshReplies = []
  exited : state.phase = .exited →
    state.closed = true ∧ state.received.map Prod.fst = state.sent

/-- No reply goes to a channel twice, and a channel that still waits has none. -/
theorem Books.count_replies {ops : CacheOps Cache Input Output} {backendName : String}
    {state : BatcherState Cache Input Output Progress} (books : Books ops backendName state)
    {entry : BatchItem Input Progress × Cache} (isReceived : entry ∈ state.received) :
    (state.replies.map Prod.fst).count entry.1.reply =
      if entry.1.reply ∈ state.freshReplies then 0 else 1 := by
  have distinct : (state.received.map fun entry => entry.1.reply).Nodup := by
    have all := books.distinct
    rw [books.fifo, List.map_append, List.map_map] at all
    exact (List.nodup_append.mp all).1
  have total := books.answered.count_eq entry.1.reply
  rw [List.count_eq_one_of_mem distinct (List.mem_map_of_mem isReceived),
    List.count_append] at total
  by_cases pending : entry.1.reply ∈ state.freshReplies
  · have positive := List.count_pos_iff.mpr pending
    rw [if_pos pending]
    omega
  · have none := List.count_eq_zero_of_not_mem pending
    rw [if_neg pending]
    omega

theorem answeredOnce_of_books {ops : CacheOps Cache Input Output} {backendName : String}
    {maxSize : ℕ} {state : BatcherState Cache Input Output Progress}
    (books : Books ops backendName state) (batches : Batches maxSize state) :
    AnsweredOnce ops backendName maxSize state where
  once := fun _ isReceived => books.count_replies isReceived
  own := books.justified
  inStep := books.called
  bounded := by
    intro call isCall
    rw [books.called call isCall, List.length_map]
    exact (batches.calls call isCall).2
  collecting := by
    rw [books.inputs, List.length_map]
    exact batches.phase.length_le
  settled := by
    intro rest
    have fits := batches.phase
    have none : state.collected = [] := by
      rcases rest with idle | exited
      · simpa only [PhaseFits, idle] using fits
      · rw [PhaseFits, exited] at fits
        exact fits.1
    rw [books.channels, none, List.map_nil]
  exited := by
    intro exited
    have fits := batches.phase
    rw [PhaseFits, exited] at fits
    refine ⟨fits.2.1, ?_⟩
    rw [books.fifo, fits.2.2, List.append_nil]

theorem batcherLoop_invariant (ops : CacheOps Cache Input Output) (backendName : String)
    (policy : BatchPolicy) :
    (batcherLoop ops backendName policy).Invariant
      fun state : BatcherState Cache Input Output Progress =>
        Books ops backendName state ∧ Batches policy.batchSize state where
  initial := by
    rintro _ ⟨cache, rfl⟩
    refine ⟨⟨?_, ?_, ?_, ?_, ?_, ?_, ?_, ?_, ?_⟩, ⟨rfl, ?_⟩⟩ <;> simp [BatcherState.start]
  step := by
    rintro state event next ⟨books, batches⟩ steps
    have positive : 0 < policy.batchSize := lt_max_of_lt_right Nat.one_pos
    have fires := Fires.of_step steps
    exact ⟨books.fires fires, batches.fires books positive fires⟩

/-- In every state that any order of events leads to, replies are unique and justified and
batches are bounded. Once the dispatchers are quiet, the loop comes to rest at its top
after a bounded number of events, and there everything it received is answered. -/
theorem batcherLoop_answers (ops : CacheOps Cache Input Output) (backendName : String)
    (policy : BatchPolicy) {state : BatcherState Cache Input Output Progress}
    (reachable : (batcherLoop ops backendName policy).Reachable state) :
    AnsweredOnce ops backendName policy.batchSize state ∧
      ∀ events next, (∀ event ∈ events, BatcherEvent.isLoop event) →
        (batcherLoop ops backendName policy).run state events = some next →
        events.length ≤ 5 * state.queue.length + 4 ∧
          ((∀ event, BatcherEvent.isLoop event →
              (batcherLoop ops backendName policy).step next event = none) →
            next.phase = .exited ∨
              next.phase = .idle ∧ next.queue = [] ∧ next.closed = false) := by
  rcases (batcherLoop_invariant ops backendName policy).reachable reachable with
    ⟨books, batches⟩
  refine ⟨answeredOnce_of_books books batches, ?_⟩
  intro events next ofLoop runs
  have bound := System.length_le_of_decreasing
    (fun _ _ _ isLoop steps => remaining_fires isLoop (Fires.of_step steps)) ofLoop runs
  have below := state.phase.rank_le
  refine ⟨?_, waiting_at_top⟩
  simp only [remaining] at bound
  omega

/-- A cache as a list of entries. -/
def listCache : CacheOps (List (ℕ × ℕ)) ℕ ℕ where
  get cache _ input := List.lookup input cache
  put cache _ input output := (input, output) :: cache

def mixedEvents : List (BatcherEvent (List (ℕ × ℕ)) ℕ ℕ Unit) :=
  [.send ⟨7, 0, ()⟩, .send ⟨8, 1, ()⟩, .send ⟨9, 2, ()⟩, .receive, .receive, .receive,
    .close, .returned (.outputs [80, 90]), .stored, .drained]

/-- A hit, a batch of two misses, and the exit after the channel is closed. -/
theorem batcherLoop_answers_mixed :
    ∃ state, (batcherLoop listCache "asr" ⟨2⟩).run (.start [(7, 70)]) mixedEvents = some state ∧
      state.replies = [(0, .ok 70), (1, .ok 80), (2, .ok 90)] ∧
      AnsweredOnce listCache "asr" 2 state := by
  have replies : ((batcherLoop listCache "asr" ⟨2⟩).run (.start [(7, 70)]) mixedEvents).map
      BatcherState.replies = some [(0, .ok 70), (1, .ok 80), (2, .ok 90)] := rfl
  rcases Option.map_eq_some_iff.mp replies with ⟨state, reaches, replied⟩
  refine ⟨state, reaches, replied, ?_⟩
  exact (batcherLoop_answers listCache "asr" ⟨2⟩ ⟨_, _, ⟨_, rfl⟩, reaches⟩).1

end Answers

end Batchalign.Engine
