import Batchalign.Errors
import Batchalign.Library.Transition

/-!
# The batcher loop

`batcher_loop` of `batchalign-engine/src/batcher.rs` as an event-driven system. The
loop takes items from its channel, answers cache hits at once, collects the
misses, and sends them to the backend when the batch is full, the window expires
or nothing more is queued. The three vectors of a batch are kept apart, as in the
source.

The events of the dispatchers (sending, closing) and of other users of the cache
come in any order between those of the loop.
-/

namespace Batchalign.Engine

open Transition

/-- A request with the one-shot channel its answer goes to. -/
structure BatchItem (Input Progress : Type) where
  input : Input
  reply : ℕ
  progress : Progress
deriving DecidableEq

/-- `Cache::get` and `Cache::put`; the task is a function of the input. -/
structure CacheOps (Cache Input Output : Type) where
  get : Cache → String → Input → Option Output
  put : Cache → String → Input → Output → Cache

structure BatchPolicy where
  maxSize : ℕ

inductive Outcome (Output : Type) where
  | outputs (outputs : List Output)
  | failed (error : BAError)
  | panicked (joinError : String)
deriving DecidableEq

/-- A finished call of the backend. `items` are the collected items the batch was made of. -/
structure Call (Input Output Progress : Type) where
  items : List (BatchItem Input Progress)
  inputs : List Input
  progress : Option Progress
  outcome : Outcome Output

inductive Phase (Input Output : Type) where
  | idle
  | window
  | drain
  | calling
  | storing (toCache : List (Input × Output))
  | exited
deriving DecidableEq

/-- The loop, its channel and the cache, and what has happened so far: the items sent, the
items received with the cache each was looked up in, the misses of the current batch, the
replies and the finished calls. -/
structure BatcherState (Cache Input Output Progress : Type) where
  queue : List (BatchItem Input Progress)
  closed : Bool
  cache : Cache
  phase : Phase Input Output
  freshInputs : List Input
  freshReplies : List ℕ
  freshProgress : List Progress
  sent : List (BatchItem Input Progress)
  received : List (BatchItem Input Progress × Cache)
  collected : List (BatchItem Input Progress)
  replies : List (ℕ × BAResult Output)
  calls : List (Call Input Output Progress)

inductive BatcherEvent (Cache Input Output Progress : Type) where
  /-- A dispatcher sends an item. -/
  | send (item : BatchItem Input Progress)
  /-- The last sender is dropped. -/
  | close
  /-- Another user of the cache changes it. -/
  | external (cache : Cache)
  /-- `recv` or `try_recv` returns an item. -/
  | receive
  /-- The batching window expires. -/
  | expire
  /-- `recv` returns `None`, or `try_recv` fails. -/
  | drained
  /-- The backend returns. -/
  | returned (outcome : Outcome Output)
  /-- The cache writes are done. -/
  | stored

namespace BatcherState

variable {Cache Input Output Progress : Type}

/-- Both `cache.get` outcomes: a hit is answered, a miss joins the batch. -/
def accept (ops : CacheOps Cache Input Output) (backendName : String)
    (state : BatcherState Cache Input Output Progress) (item : BatchItem Input Progress)
    (queue : List (BatchItem Input Progress)) : BatcherState Cache Input Output Progress :=
  let state := { state with
    queue := queue
    received := state.received ++ [(item, state.cache)] }
  match ops.get state.cache backendName item.input with
  | some cached => { state with replies := state.replies ++ [(item.reply, .ok cached)] }
  | none =>
      { state with
        freshInputs := state.freshInputs ++ [item.input]
        freshReplies := state.freshReplies ++ [item.reply]
        freshProgress := state.freshProgress ++ [item.progress]
        collected := state.collected ++ [item] }

/-- The loop condition `fresh_inputs.len() < max_size`. -/
def collectOrCall (maxSize : ℕ) (draining : Phase Input Output)
    (state : BatcherState Cache Input Output Progress) :
    BatcherState Cache Input Output Progress :=
  { state with
    phase := if state.freshInputs.length < maxSize then draining else .calling }

/-- After the first item the window starts only on a miss. -/
def afterFirst (maxSize : ℕ) (state : BatcherState Cache Input Output Progress) :
    BatcherState Cache Input Output Progress :=
  state.collectOrCall maxSize (if state.freshInputs.isEmpty then .drain else .window)

/-- What the call means for the batch: one output for each input, or an error for all. -/
def batchResult (backendName : String) (n : ℕ) : Outcome Output → BAResult (List Output)
  | .outputs outputs =>
      if outputs.length = n then .ok outputs
      else .error (.worker (s!"backend {debugText backendName} returned wrong-length batch: " ++
        s!"{outputs.length} != {n}"))
  | .failed error => .error (.worker s!"backend error: {error.display}")
  | .panicked joinError => .error (.worker s!"backend task panicked: {joinError}")

/-- The replies of a finished call, by position in the vectors. -/
def batchReplies (freshReplies : List ℕ) (freshInputs : List Input) :
    BAResult (List Output) → List (ℕ × BAResult Output)
  | .ok outputs =>
      ((freshReplies.zip freshInputs).zip outputs).map fun answer => (answer.1.1, .ok answer.2)
  | .error error => freshReplies.map fun reply => (reply, .error error)

/-- Only good outputs are written to the cache. -/
def afterCall (freshInputs : List Input) : BAResult (List Output) → Phase Input Output
  | .ok outputs => .storing (freshInputs.zip outputs)
  | .error _ => .idle

/-- The lone progress handle of a batch of one, no handle otherwise. -/
def callProgress (state : BatcherState Cache Input Output Progress) : Option Progress :=
  if state.freshInputs.length = 1 then state.freshProgress[0]? else none

def finishedCall (state : BatcherState Cache Input Output Progress) (outcome : Outcome Output) :
    Call Input Output Progress where
  items := state.collected
  inputs := state.freshInputs
  progress := state.callProgress
  outcome := outcome

def distribute (backendName : String) (state : BatcherState Cache Input Output Progress)
    (outcome : Outcome Output) : BatcherState Cache Input Output Progress :=
  let result := batchResult backendName state.freshInputs.length outcome
  { state with
    phase := afterCall state.freshInputs result
    freshInputs := []
    freshReplies := []
    freshProgress := []
    collected := []
    replies := state.replies ++ batchReplies state.freshReplies state.freshInputs result
    calls := state.calls ++ [state.finishedCall outcome] }

def store (ops : CacheOps Cache Input Output) (backendName : String)
    (state : BatcherState Cache Input Output Progress) (toCache : List (Input × Output)) :
    BatcherState Cache Input Output Progress :=
  { state with
    phase := .idle
    cache := toCache.foldl (fun cache entry => ops.put cache backendName entry.1 entry.2)
      state.cache }

def step (ops : CacheOps Cache Input Output) (backendName : String) (maxSize : ℕ)
    (state : BatcherState Cache Input Output Progress) :
    BatcherEvent Cache Input Output Progress →
      Option (BatcherState Cache Input Output Progress)
  | .send item =>
      -- a one-shot channel is used for one item only
      if state.closed ∨ item.reply ∈ state.sent.map BatchItem.reply then none
      else some { state with queue := state.queue ++ [item], sent := state.sent ++ [item] }
  | .close => if state.closed then none else some { state with closed := true }
  | .external cache => some { state with cache := cache }
  | .receive =>
      match state.phase, state.queue with
      | .idle, item :: queue =>
          some ((state.accept ops backendName item queue).afterFirst maxSize)
      | .window, item :: queue =>
          some ((state.accept ops backendName item queue).collectOrCall maxSize .window)
      | .drain, item :: queue =>
          some ((state.accept ops backendName item queue).collectOrCall maxSize .drain)
      | _, _ => none
  | .expire =>
      match state.phase with
      | .window => some { state with phase := .calling }
      | _ => none
  | .drained =>
      match state.phase, state.queue with
      | .idle, [] => if state.closed then some { state with phase := .exited } else none
      | .window, [] => if state.closed then some { state with phase := .calling } else none
      | .drain, [] =>
          some { state with phase := if state.freshInputs.isEmpty then .idle else .calling }
      | _, _ => none
  | .returned outcome =>
      match state.phase with
      | .calling => some (state.distribute backendName outcome)
      | _ => none
  | .stored =>
      match state.phase with
      | .storing toCache => some (state.store ops backendName toCache)
      | _ => none

/-- The state when the loop starts. -/
def start (cache : Cache) : BatcherState Cache Input Output Progress where
  queue := []
  closed := false
  cache := cache
  phase := .idle
  freshInputs := []
  freshReplies := []
  freshProgress := []
  sent := []
  received := []
  collected := []
  replies := []
  calls := []

end BatcherState

/-- `policy.max_size.max(1)`. -/
def BatchPolicy.batchSize (policy : BatchPolicy) : ℕ := max policy.maxSize 1

/-- The loop with any initial cache. -/
def batcherLoop {Cache Input Output Progress : Type} (ops : CacheOps Cache Input Output)
    (backendName : String) (policy : BatchPolicy) :
    System (BatcherState Cache Input Output Progress)
      (BatcherEvent Cache Input Output Progress) where
  Initial state := ∃ cache, state = .start cache
  step := BatcherState.step ops backendName policy.batchSize

end Batchalign.Engine
