import Batchalign.Engine.BatcherReplies
import Batchalign.Task

/-!
# One cache for many batchers

`Cache` of `batchalign-engine/src/cache.rs`: an LMDB database that the batchers of any number
of pipelines, processes and builds read and write, each under its own policy. An entry is kept
under the digest of the build, the task, the backend and the content of the input, as the
JSON of the output. Transactions can fail at any time, and then a lookup is a miss and a write
is lost.

The parties here are the batcher loops. Each event is one of a loop, on the database as the
others have left it.
-/

namespace Batchalign.Engine

open Transition BatcherState

section Definitions

inductive CachePolicy where
  | use
  | bypass
  | refresh
deriving DecidableEq, Repr

/-- The task of an input, and what its `CacheKey` serializes. -/
class CacheKey (Input : Type) where
  task : Input → Task
  content : Input → String

/-- `serde_json` on the outputs. -/
class OutputJson (Output Bytes : Type) where
  toVec : Output → Option Bytes
  fromSlice : Bytes → Option Output

/-- The database, and whether its transactions succeed at the moment. -/
structure Lmdb (Digest Bytes : Type) where
  entries : Digest → Option Bytes
  readable : Bool
  writable : Bool

/-- A batcher loop with the cache handle of its pipeline. -/
structure Party where
  codeVersion : String
  policy : CachePolicy
  backendName : String
  batch : BatchPolicy

def keyNamespace (task : Task) (backendName codeVersion : String) : String :=
  s!"v3|{codeVersion}|" ++ s!"{task.debug}|{backendName}|"

variable {Input Output Digest Bytes Progress : Type} [CacheKey Input] [OutputJson Output Bytes]
  [DecidableEq Digest] (digest : String → Digest)

def cacheKey (codeVersion backendName : String) (input : Input) : Digest :=
  digest (keyNamespace (CacheKey.task input) backendName codeVersion ++ CacheKey.content input)

/-- `Cache::get` under the policy and the build of a party. -/
def cacheGet (party : Party) (lmdb : Lmdb Digest Bytes) (backendName : String)
    (input : Input) : Option Output :=
  match party.policy with
  | .bypass | .refresh => none
  | .use =>
      if lmdb.readable then
        (lmdb.entries (cacheKey digest party.codeVersion backendName input)).bind
          OutputJson.fromSlice
      else none

def cachePut (party : Party) (lmdb : Lmdb Digest Bytes) (backendName : String)
    (input : Input) (output : Output) : Lmdb Digest Bytes :=
  match party.policy with
  | .bypass => lmdb
  | .use | .refresh =>
      match (OutputJson.toVec output : Option Bytes) with
      | none => lmdb
      | some bytes =>
          if lmdb.writable then
            { lmdb with
              entries := Function.update lmdb.entries
                (cacheKey digest party.codeVersion backendName input) (some bytes) }
          else lmdb

def cacheOps (party : Party) : CacheOps (Lmdb Digest Bytes) Input Output where
  get := cacheGet digest party
  put := cachePut digest party

/-- The database and the loops, by the numbers of their parties. -/
structure SharedState (Input Output Digest Bytes Progress : Type) where
  lmdb : Lmdb Digest Bytes
  loops : List (Party × BatcherState (Lmdb Digest Bytes) Input Output Progress)

inductive SharedEvent (Input Output Digest Bytes Progress : Type) where
  | loop (index : ℕ) (event : BatcherEvent (Lmdb Digest Bytes) Input Output Progress)
  /-- Transactions begin to fail or to succeed. -/
  | transactions (readable writable : Bool)

/-- The step of a loop on the database. Here the others are no `external` users. -/
def loopStep (lmdb : Lmdb Digest Bytes)
    (entry : Party × BatcherState (Lmdb Digest Bytes) Input Output Progress)
    (event : BatcherEvent (Lmdb Digest Bytes) Input Output Progress) :
    Option (Lmdb Digest Bytes ×
      Party × BatcherState (Lmdb Digest Bytes) Input Output Progress) :=
  match event with
  | .external _ => none
  | event =>
      (BatcherState.step (cacheOps digest entry.1) entry.1.backendName entry.1.batch.batchSize
        { entry.2 with cache := lmdb } event).map fun next => (next.cache, entry.1, next)

def SharedState.step (state : SharedState Input Output Digest Bytes Progress) :
    SharedEvent Input Output Digest Bytes Progress →
      Option (SharedState Input Output Digest Bytes Progress)
  | .transactions readable writable =>
      some { state with lmdb := { state.lmdb with readable := readable, writable := writable } }
  | .loop index event =>
      (stepAt (loopStep digest) state.lmdb state.loops index event).map fun next =>
        ⟨next.1, next.2⟩

/-- Loops that start together on a database. -/
def sharedCache (parties : List Party) (database : Lmdb Digest Bytes) :
    System (SharedState Input Output Digest Bytes Progress)
      (SharedEvent Input Output Digest Bytes Progress) where
  Initial state := state = ⟨database, parties.map fun party => (party, .start database)⟩
  step := SharedState.step digest

end Definitions

section Traces

variable {Cache Input Output Progress : Type} {ops : CacheOps Cache Input Output}
  {backendName : String} {maxSize : ℕ}
  {state next : BatcherState Cache Input Output Progress}
  {event : BatcherEvent Cache Input Output Progress}

/-- A finished call gave this output to this input. -/
def Answered (backendName : String) (state : BatcherState Cache Input Output Progress)
    (input : Input) (output : Output) : Prop :=
  ∃ call ∈ state.calls, ∃ outputs,
    batchResult backendName call.inputs.length call.outcome = .ok outputs ∧
      ∃ index : ℕ, call.inputs[index]? = some input ∧ outputs[index]? = some output

theorem Answered.mono {input : Input} {output : Output}
    (answered : Answered backendName state input output) (calls : state.calls ⊆ next.calls) :
    Answered backendName next input output := by
  rcases answered with ⟨call, isCall, known⟩
  exact ⟨call, calls isCall, known⟩

/-- What an event of the loop itself leaves behind in the histories and in the cache. -/
structure Traced (ops : CacheOps Cache Input Output) (backendName : String)
    (state next : BatcherState Cache Input Output Progress) : Prop where
  calls : state.calls ⊆ next.calls
  received : ∀ entry ∈ next.received, entry ∈ state.received ∨ entry.2 = state.cache
  cache : next.cache = state.cache ∨ ∃ toCache, state.phase = .storing toCache ∧
    next.cache = toCache.foldl (fun cache entry => ops.put cache backendName entry.1 entry.2)
      state.cache
  storing : ∀ toCache, next.phase = .storing toCache → state.phase = .storing toCache ∨
    ∀ entry ∈ toCache, Answered backendName next entry.1 entry.2

theorem accept_traces (ops : CacheOps Cache Input Output) (backendName : String)
    (state : BatcherState Cache Input Output Progress) (item : BatchItem Input Progress)
    (queue : List (BatchItem Input Progress)) :
    (state.accept ops backendName item queue).received =
        state.received ++ [(item, state.cache)] ∧
      (state.accept ops backendName item queue).cache = state.cache := by
  cases found : ops.get state.cache backendName item.input <;>
    simp only [BatcherState.accept, found, and_self]

/-- Receiving ends in a phase that stores nothing. -/
theorem Traced.receive {item : BatchItem Input Progress}
    {queue : List (BatchItem Input Progress)} {phase : Phase Input Output}
    (collects : ∀ toCache, phase ≠ .storing toCache) :
    Traced ops backendName state
      { state.accept ops backendName item queue with phase := phase } := by
  have traces := accept_traces ops backendName state item queue
  constructor
  · exact (accept_calls ops backendName state item queue).symm ▸ List.Subset.refl _
  · intro entry isReceived
    have isReceived : entry ∈ state.received ++ [(item, state.cache)] := traces.1 ▸ isReceived
    rcases List.mem_append.mp isReceived with earlier | isLast
    · exact .inl earlier
    · rw [List.mem_singleton] at isLast
      exact .inr (congrArg Prod.snd isLast)
  · exact .inl traces.2
  · intro toCache storing
    exact absurd storing (collects toCache)

/-- The outputs that are stored are those of the call that has just returned. -/
theorem Traced.returned (state : BatcherState Cache Input Output Progress)
    (outcome : Outcome Output) :
    Traced ops backendName state (state.distribute backendName outcome) where
  calls := List.subset_append_left _ _
  received _ isReceived := .inl isReceived
  cache := .inl rfl
  storing toCache storing := by
    right
    simp only [BatcherState.distribute] at storing
    cases result : batchResult backendName state.freshInputs.length outcome with
    | error error =>
        rw [result] at storing
        cases storing
    | ok outputs =>
        rw [result] at storing
        cases storing
        intro entry isEntry
        rcases List.mem_iff_getElem?.mp isEntry with ⟨index, found⟩
        rw [List.getElem?_zip_eq_some] at found
        refine ⟨state.finishedCall outcome, ?_, outputs, result, index, found.1, found.2⟩
        simp [BatcherState.distribute]

theorem Fires.traced (fires : Fires ops backendName maxSize state event next)
    (own : ∀ cache, event ≠ .external cache) : Traced ops backendName state next := by
  have same : ∀ toCache, state.phase = .storing toCache →
      state.phase = .storing toCache ∨
        ∀ entry ∈ toCache, Answered backendName state entry.1 entry.2 := fun _ => .inl
  cases fires with
  | send item isOpen fresh => exact ⟨List.Subset.refl _, fun _ => .inl, .inl rfl, same⟩
  | close isOpen => exact ⟨List.Subset.refl _, fun _ => .inl, .inl rfl, same⟩
  | external cache => exact absurd rfl (own cache)
  | @receiveFirst item queue isIdle queued =>
      apply Traced.receive
      intro toCache
      split
      · split <;> exact nofun
      · exact nofun
  | @receiveMore item queue collecting isCollecting collects queued =>
      apply Traced.receive
      intro toCache
      split
      · rcases collects with rfl | rfl <;> exact nofun
      · exact nofun
  | expire isWindow => exact ⟨List.Subset.refl _, fun _ => .inl, .inl rfl, nofun⟩
  | exit isIdle empty isClosed =>
      exact ⟨List.Subset.refl _, fun _ => .inl, .inl rfl, nofun⟩
  | cutShort isWindow => exact ⟨List.Subset.refl _, fun _ => .inl, .inl rfl, nofun⟩
  | drained isDrain =>
      refine ⟨List.Subset.refl _, fun _ => .inl, .inl rfl, ?_⟩
      intro toCache storing
      cases empty : state.freshInputs.isEmpty <;> simp [empty] at storing
  | returned outcome isCalling => exact .returned state outcome
  | @stored toCache isStoring =>
      exact ⟨List.Subset.refl _, fun _ => .inl, .inr ⟨toCache, isStoring, rfl⟩, nofun⟩

end Traces

section Origins

variable {Input Output Digest Bytes Progress : Type} [CacheKey Input] [OutputJson Output Bytes]
  [DecidableEq Digest] {digest : String → Digest} {database lmdb : Lmdb Digest Bytes}
  {loops later : List (Party × BatcherState (Lmdb Digest Bytes) Input Output Progress)}
  {key : Digest} {bytes : Bytes}

/-- Where an entry comes from: it was there before the loops, or a loop that writes has
answered an input of this key with this output. -/
inductive Origin (digest : String → Digest) (database : Lmdb Digest Bytes)
    (loops : List (Party × BatcherState (Lmdb Digest Bytes) Input Output Progress))
    (key : Digest) (bytes : Bytes) : Prop where
  | before (kept : database.entries key = some bytes)
  | written {party loop input output} (isLoop : (party, loop) ∈ loops)
      (writes : party.policy ≠ .bypass)
      (answered : Answered party.backendName loop input output)
      (sameKey : cacheKey digest party.codeVersion party.backendName input = key)
      (encodes : OutputJson.toVec output = some bytes)

/-- Every entry has an origin. -/
def Sound (digest : String → Digest) (database : Lmdb Digest Bytes)
    (loops : List (Party × BatcherState (Lmdb Digest Bytes) Input Output Progress))
    (lmdb : Lmdb Digest Bytes) : Prop :=
  ∀ key bytes, lmdb.entries key = some bytes → Origin digest database loops key bytes

/-- The loops have gone on from these. -/
def GoneOn (loops later : List (Party × BatcherState (Lmdb Digest Bytes) Input Output Progress)) :
    Prop :=
  ∀ entry ∈ loops, ∃ loop, (entry.1, loop) ∈ later ∧ entry.2.calls ⊆ loop.calls

omit [DecidableEq Digest] in
theorem Origin.mono (origin : Origin digest database loops key bytes)
    (goneOn : GoneOn loops later) : Origin digest database later key bytes := by
  cases origin with
  | before kept => exact .before kept
  | @written party loop input output isLoop writes answered sameKey encodes =>
      rcases goneOn _ isLoop with ⟨next, isNext, calls⟩
      exact .written isNext writes (answered.mono calls) sameKey encodes

omit [DecidableEq Digest] in
theorem Sound.mono (sound : Sound digest database loops lmdb) (goneOn : GoneOn loops later) :
    Sound digest database later lmdb :=
  fun key bytes isEntry => (sound key bytes isEntry).mono goneOn

/-- A write changes the entry of its key, or nothing. -/
theorem cachePut_cases (digest : String → Digest) (party : Party) (lmdb : Lmdb Digest Bytes)
    (backendName : String) (input : Input) (output : Output) :
    cachePut digest party lmdb backendName input output = lmdb ∨
      ∃ bytes, party.policy ≠ .bypass ∧ OutputJson.toVec output = some bytes ∧
        cachePut digest party lmdb backendName input output =
          { lmdb with
            entries := Function.update lmdb.entries
              (cacheKey digest party.codeVersion backendName input) (some bytes) } := by
  cases policy : party.policy with
  | bypass => exact .inl (by simp [cachePut, policy])
  | use =>
      cases encodes : (OutputJson.toVec output : Option Bytes) with
      | none => exact .inl (by simp [cachePut, policy, encodes])
      | some bytes =>
          cases writable : lmdb.writable with
          | false => exact .inl (by simp [cachePut, policy, encodes, writable])
          | true => exact .inr ⟨bytes, nofun, rfl, by simp [cachePut, policy, encodes, writable]⟩
  | refresh =>
      cases encodes : (OutputJson.toVec output : Option Bytes) with
      | none => exact .inl (by simp [cachePut, policy, encodes])
      | some bytes =>
          cases writable : lmdb.writable with
          | false => exact .inl (by simp [cachePut, policy, encodes, writable])
          | true => exact .inr ⟨bytes, nofun, rfl, by simp [cachePut, policy, encodes, writable]⟩

/-- A write of an answer keeps every entry accounted for. -/
theorem Sound.cachePut {party : Party}
    {loop : BatcherState (Lmdb Digest Bytes) Input Output Progress} {input : Input}
    {output : Output} (sound : Sound digest database loops lmdb)
    (isLoop : (party, loop) ∈ loops)
    (answered : Answered party.backendName loop input output) :
    Sound digest database loops
      (cachePut digest party lmdb party.backendName input output) := by
  rcases cachePut_cases digest party lmdb party.backendName input output
    with same | ⟨bytes, writes, encodes, updated⟩
  · rwa [same]
  · rw [updated]
    intro key found isEntry
    by_cases sameKey : key = cacheKey digest party.codeVersion party.backendName input
    · subst sameKey
      have isFound : bytes = found := by simpa using isEntry
      subst isFound
      exact .written isLoop writes answered rfl encodes
    · refine sound key found ?_
      simpa [Function.update_of_ne sameKey] using isEntry

theorem Sound.store {party : Party}
    {loop : BatcherState (Lmdb Digest Bytes) Input Output Progress}
    {toCache : List (Input × Output)} (sound : Sound digest database loops lmdb)
    (isLoop : (party, loop) ∈ loops)
    (answered : ∀ entry ∈ toCache, Answered party.backendName loop entry.1 entry.2) :
    Sound digest database loops
      (toCache.foldl (fun lmdb entry => (cacheOps digest party).put lmdb party.backendName
        entry.1 entry.2) lmdb) := by
  induction toCache generalizing lmdb with
  | nil => exact sound
  | cons entry toCache ih =>
      rw [List.foldl_cons]
      exact ih (sound.cachePut isLoop (answered entry List.mem_cons_self))
        fun other isEntry => answered other (List.mem_cons_of_mem _ isEntry)

end Origins

section SharedBooks

variable {Input Output Digest Bytes Progress : Type} [CacheKey Input] [OutputJson Output Bytes]
  [DecidableEq Digest] {digest : String → Digest} {database : Lmdb Digest Bytes}
  {parties : List Party}
  {state next : SharedState Input Output Digest Bytes Progress}

/-- The books of the database and the loops on it. -/
structure SharedBooks (digest : String → Digest) (database : Lmdb Digest Bytes)
    (parties : List Party) (state : SharedState Input Output Digest Bytes Progress) : Prop where
  parties : state.loops.map Prod.fst = parties
  sound : Sound digest database state.loops state.lmdb
  books : ∀ entry ∈ state.loops,
    Books (cacheOps digest entry.1) entry.1.backendName entry.2
  looked : ∀ entry ∈ state.loops, ∀ lookup ∈ entry.2.received,
    Sound digest database state.loops lookup.2
  storing : ∀ entry ∈ state.loops, ∀ toCache, entry.2.phase = .storing toCache →
    ∀ stored ∈ toCache, Answered entry.1.backendName entry.2 stored.1 stored.2

/-- A loop event, with the loops around the one that moves. -/
theorem SharedState.exists_fires {index : ℕ}
    {event : BatcherEvent (Lmdb Digest Bytes) Input Output Progress}
    (steps : state.step digest (.loop index event) = some next) :
    ∃ before party loop after moved, state.loops = before ++ (party, loop) :: after ∧
      next.loops = before ++ (party, moved) :: after ∧ next.lmdb = moved.cache ∧
        (∀ cache, event ≠ .external cache) ∧
          Fires (cacheOps digest party) party.backendName party.batch.batchSize
            { loop with cache := state.lmdb } event moved := by
  rcases Option.map_eq_some_iff.mp steps with ⟨⟨lmdb, loops⟩, stepped, isNext⟩
  subst isNext
  rcases exists_split_of_stepAt stepped with
    ⟨before, ⟨party, loop⟩, after, ⟨party', moved⟩, isLoops, isMoved, moves⟩
  have own : ∀ cache, event ≠ .external cache := by
    rintro cache rfl
    cases moves
  have moves : (BatcherState.step (cacheOps digest party) party.backendName
      party.batch.batchSize { loop with cache := state.lmdb } event).map
        (fun next => (next.cache, party, next)) = some (lmdb, party', moved) := by
    cases event <;> first | exact moves | exact absurd rfl (own _)
  rcases Option.map_eq_some_iff.mp moves with ⟨next, fires, isMoved'⟩
  cases isMoved'
  exact ⟨before, party, loop, after, moved, isLoops, isMoved, rfl, own, .of_step fires⟩

omit [CacheKey Input] [OutputJson Output Bytes] [DecidableEq Digest] in
/-- The loops around one that goes on. -/
theorem goneOn_of_calls {before after : List (Party ×
      BatcherState (Lmdb Digest Bytes) Input Output Progress)} {party : Party}
    {loop moved : BatcherState (Lmdb Digest Bytes) Input Output Progress}
    (calls : loop.calls ⊆ moved.calls) :
    GoneOn (before ++ (party, loop) :: after) (before ++ (party, moved) :: after) := by
  intro entry isEntry
  simp only [List.mem_append, List.mem_cons] at isEntry
  rcases isEntry with isBefore | rfl | isAfter
  · exact ⟨entry.2, by simp [isBefore], List.Subset.refl _⟩
  · exact ⟨moved, by simp, calls⟩
  · exact ⟨entry.2, by simp [isAfter], List.Subset.refl _⟩

theorem sharedBooks (digest : String → Digest) (parties : List Party)
    (database : Lmdb Digest Bytes) :
    (sharedCache digest parties database).Invariant
      fun state : SharedState Input Output Digest Bytes Progress =>
        SharedBooks digest database parties state where
  initial state isInitial := by
    subst isInitial
    have started : ∀ entry ∈ parties.map fun party => (party, start database),
        entry.2 = (start database : BatcherState _ Input Output Progress) := by
      intro entry isEntry
      rcases List.mem_map.mp isEntry with ⟨party, _, rfl⟩
      rfl
    constructor
    · simp [Function.comp_def]
    · exact fun key bytes kept => .before kept
    · intro entry isEntry
      rw [started entry isEntry]
      exact ((batcherLoop_invariant _ _ entry.1.batch).initial _ ⟨database, rfl⟩).1
    · intro entry isEntry lookup isLookup
      rw [started entry isEntry] at isLookup
      cases isLookup
    · intro entry isEntry toCache storing
      rw [started entry isEntry] at storing
      cases storing
  step state event next books steps := by
    cases event with
    | transactions readable writable =>
        cases steps
        exact ⟨books.parties, books.sound, books.books, books.looked, books.storing⟩
    | loop index event =>
        rcases SharedState.exists_fires steps with
          ⟨before, party, loop, after, moved, isLoops, isNext, isLmdb, own, fires⟩
        have isLoop : (party, loop) ∈ state.loops := by simp [isLoops]
        have isMoved : (party, moved) ∈ next.loops := by simp [isNext]
        have traced := fires.traced own
        have goneOn : GoneOn state.loops next.loops := by
          rw [isLoops, isNext]
          exact goneOn_of_calls traced.calls
        have others : ∀ entry ∈ next.loops, entry = (party, moved) ∨ entry ∈ state.loops := by
          intro entry isEntry
          rw [isNext] at isEntry
          rw [isLoops]
          simp only [List.mem_append, List.mem_cons] at isEntry ⊢
          tauto
        have stored : ∀ toCache, loop.phase = .storing toCache →
            ∀ entry ∈ toCache, Answered party.backendName moved entry.1 entry.2 :=
          fun toCache storing entry isEntry =>
            (books.storing _ isLoop toCache storing entry isEntry).mono traced.calls
        have sound := books.sound.mono goneOn
        constructor
        · rw [← books.parties, isLoops, isNext]
          simp
        · rw [isLmdb]
          rcases traced.cache with same | ⟨toCache, storing, written⟩
          · rwa [same]
          · rw [written]
            exact sound.store isMoved (stored toCache storing)
        · intro entry isEntry
          rcases others entry isEntry with rfl | isOther
          · exact ((books.books _ isLoop).withCache state.lmdb).fires fires
          · exact books.books entry isOther
        · intro entry isEntry lookup isLookup
          rcases others entry isEntry with rfl | isOther
          · rcases traced.received lookup isLookup with earlier | isNow
            · exact (books.looked _ isLoop lookup earlier).mono goneOn
            · rwa [isNow]
          · exact (books.looked entry isOther lookup isLookup).mono goneOn
        · intro entry isEntry toCache storing
          rcases others entry isEntry with rfl | isOther
          · rcases traced.storing toCache storing with same | answered
            · exact stored toCache same
            · exact answered
          · exact books.storing entry isOther toCache storing

end SharedBooks

section Keys

/-- What stands before the first separator is read off. -/
theorem append_cons_inj {α : Type} {separator : α} {front front' back back' : List α}
    (free : separator ∉ front) (free' : separator ∉ front')
    (same : front ++ separator :: back = front' ++ separator :: back') :
    front = front' ∧ back = back' := by
  induction front generalizing front' with
  | nil =>
      cases front' with
      | nil => simpa using same
      | cons c front' =>
          simp only [List.nil_append, List.cons_append, List.cons.injEq] at same
          simp [same.1] at free'
  | cons c front ih =>
      cases front' with
      | nil =>
          simp only [List.nil_append, List.cons_append, List.cons.injEq] at same
          simp [same.1] at free
      | cons c' front' =>
          simp only [List.cons_append, List.cons.injEq] at same
          rcases ih (fun isIn => free (List.mem_cons_of_mem _ isIn))
            (fun isIn => free' (List.mem_cons_of_mem _ isIn)) same.2 with ⟨rfl, rfl⟩
          exact ⟨by rw [same.1], rfl⟩

theorem Task.debug_free (task : Task) : '|' ∉ task.debug.toList := by
  cases task <;> decide

theorem Task.debug_injective : Function.Injective Task.debug := by
  intro task task' same
  cases task <;> cases task' <;> first | rfl | (revert same; decide)

/-- The fields of a name that the separator of the keys does not occur in. -/
def BarFree (party : Party) : Prop :=
  '|' ∉ party.codeVersion.toList ∧ '|' ∉ party.backendName.toList

instance (party : Party) : Decidable (BarFree party) := inferInstanceAs (Decidable (_ ∧ _))

variable {Input Digest : Type} [CacheKey Input]

theorem toList_keyNamespace (task : Task) (backendName codeVersion content : String) :
    (keyNamespace task backendName codeVersion ++ content).toList =
      "v3|".toList ++ (codeVersion.toList ++ '|' :: (task.debug.toList ++ '|' ::
        (backendName.toList ++ '|' :: content.toList))) := by
  have bar : "|".toList = ['|'] := rfl
  simp [keyNamespace, toString, bar]

/-- Inputs share a key only if everything in the key is the same. -/
theorem eq_of_cacheKey_eq {digest : String → Digest} (injective : Function.Injective digest)
    {party other : Party} (free : BarFree party) (free' : BarFree other) {input input' : Input}
    (same : cacheKey digest party.codeVersion party.backendName input =
      cacheKey digest other.codeVersion other.backendName input') :
    party.codeVersion = other.codeVersion ∧ party.backendName = other.backendName ∧
      CacheKey.task input = CacheKey.task input' ∧
        CacheKey.content input = CacheKey.content input' := by
  have texts := congrArg String.toList (injective same)
  rw [toList_keyNamespace, toList_keyNamespace] at texts
  rcases append_cons_inj free.1 free'.1 (List.append_cancel_left texts) with ⟨builds, texts⟩
  rcases append_cons_inj (Task.debug_free _) (Task.debug_free _) texts with ⟨tasks, texts⟩
  rcases append_cons_inj free.2 free'.2 texts with ⟨names, contents⟩
  exact ⟨String.toList_injective builds, String.toList_injective names,
    Task.debug_injective (String.toList_injective tasks), String.toList_injective contents⟩

end Keys

section Hits

variable {Input Output Digest Bytes Progress : Type} [CacheKey Input] [OutputJson Output Bytes]
  [DecidableEq Digest] {digest : String → Digest} {parties : List Party}
  {database lmdb : Lmdb Digest Bytes}
  {state next : SharedState Input Output Digest Bytes Progress}

/-- An item that was, or is to be, sent to the backend. -/
def InBatch {Cache : Type} (loop : BatcherState Cache Input Output Progress)
    (item : BatchItem Input Progress) : Prop :=
  item ∈ loop.collected ∨ ∃ call ∈ loop.calls, item ∈ call.items

omit [CacheKey Input] [OutputJson Output Bytes] [DecidableEq Digest] in
/-- Only a miss joins a batch. -/
theorem Fires.inBatch {Cache : Type} {ops : CacheOps Cache Input Output} {backendName : String}
    {maxSize : ℕ} {loop moved : BatcherState Cache Input Output Progress}
    {event : BatcherEvent Cache Input Output Progress}
    (fires : Fires ops backendName maxSize loop event moved) {item : BatchItem Input Progress}
    (isIn : InBatch moved item) :
    InBatch loop item ∨ ops.get loop.cache backendName item.input = none := by
  have accepted : ∀ (received : BatchItem Input Progress) (queue : List _),
      InBatch (loop.accept ops backendName received queue) item →
        InBatch loop item ∨ ops.get loop.cache backendName item.input = none := by
    intro received queue isIn
    cases found : ops.get loop.cache backendName received.input with
    | some cached =>
        left
        simpa only [InBatch, BatcherState.accept, found] using isIn
    | none =>
        simp only [InBatch, BatcherState.accept, found, List.mem_append,
          List.mem_singleton] at isIn
        rcases isIn with (isCollected | rfl) | isCalled
        · exact .inl (.inl isCollected)
        · exact .inr found
        · exact .inl (.inr isCalled)
  cases fires with
  | receiveFirst isIdle queued => exact accepted _ _ isIn
  | receiveMore isCollecting collects queued => exact accepted _ _ isIn
  | returned outcome isCalling =>
      left
      simp only [InBatch, BatcherState.distribute, List.not_mem_nil, false_or, List.mem_append,
        List.mem_singleton] at isIn
      rcases isIn with ⟨call, earlier | rfl, isItem⟩
      · exact .inr ⟨call, earlier, isItem⟩
      · exact .inl isItem
  | send | close | external | expire | exit | cutShort | drained | stored => exact .inl isIn

/-- The entry of a key can be read and decoded. -/
def Stored (Output : Type) [OutputJson Output Bytes] (lmdb : Lmdb Digest Bytes)
    (key : Digest) : Prop :=
  ∃ bytes, ∃ output : Output, lmdb.entries key = some bytes ∧
    OutputJson.fromSlice bytes = some output

theorem Stored.cachePut (digest : String → Digest) {key : Digest} (stored : Stored Output lmdb key)
    (roundTrip : ∀ (output : Output) (bytes : Bytes), OutputJson.toVec output = some bytes →
      OutputJson.fromSlice bytes = some output) (party : Party) (backendName : String)
    (input : Input) (output : Output) :
    Stored Output (cachePut digest party lmdb backendName input output) key ∧
      (cachePut digest party lmdb backendName input output).readable = lmdb.readable := by
  rcases cachePut_cases digest party lmdb backendName input output
    with same | ⟨bytes, _, encodes, updated⟩
  · rw [same]
    exact ⟨stored, rfl⟩
  · rw [updated]
    refine ⟨?_, rfl⟩
    by_cases here : key = cacheKey digest party.codeVersion backendName input
    · exact ⟨bytes, output, by simp [here], roundTrip output bytes encodes⟩
    · rcases stored with ⟨bytes, output, isEntry, decodes⟩
      exact ⟨bytes, output, by simp [Function.update_of_ne here, isEntry], decodes⟩

theorem Stored.store {key : Digest} (stored : Stored Output lmdb key)
    (roundTrip : ∀ (output : Output) (bytes : Bytes), OutputJson.toVec output = some bytes →
      OutputJson.fromSlice bytes = some output) (party : Party) (backendName : String)
    (toCache : List (Input × Output)) :
    let written := toCache.foldl (fun lmdb entry =>
      (cacheOps digest party).put lmdb backendName entry.1 entry.2) lmdb
    Stored Output written key ∧ written.readable = lmdb.readable := by
  induction toCache generalizing lmdb with
  | nil => exact ⟨stored, rfl⟩
  | cons entry toCache ih =>
      have put := stored.cachePut digest roundTrip party backendName entry.1 entry.2
      have rest := ih put.1
      exact ⟨rest.1, rest.2.trans put.2⟩

omit [DecidableEq Digest] in
/-- A lookup under `use` of a stored key is a hit. -/
theorem cacheGet_isSome {party : Party} {input : Input} (uses : party.policy = .use)
    (readable : lmdb.readable = true)
    (stored : Stored Output lmdb
      (cacheKey digest party.codeVersion party.backendName input)) :
    ((cacheGet digest party lmdb party.backendName input : Option Output)).isSome := by
  rcases stored with ⟨bytes, output, isEntry, decodes⟩
  simp [cacheGet, uses, readable, isEntry, decodes]

omit [DecidableEq Digest] in
theorem cacheGet_eq_some {party : Party} {backendName : String} {input : Input} {output : Output}
    (hit : cacheGet digest party lmdb backendName input = some output) :
    party.policy = .use ∧ ∃ bytes,
      lmdb.entries (cacheKey digest party.codeVersion backendName input) = some bytes ∧
        OutputJson.fromSlice bytes = some output := by
  cases policy : party.policy with
  | bypass => simp [cacheGet, policy] at hit
  | refresh => simp [cacheGet, policy] at hit
  | use =>
      cases readable : lmdb.readable with
      | false => simp [cacheGet, policy, readable] at hit
      | true =>
          simp only [cacheGet, policy, readable, if_true] at hit
          exact ⟨rfl, Option.bind_eq_some_iff.mp hit⟩

/-- Read transactions go on working. -/
def SharedEvent.KeepsReadable : SharedEvent Input Output Digest Bytes Progress → Prop
  | .loop _ _ => True
  | .transactions readable _ => readable = true

/-- What a stored entry means for the loops that read the database: no item of its key joins
a batch. -/
structure Spared (digest : String → Digest) (key : Digest)
    (state next : SharedState Input Output Digest Bytes Progress) : Prop where
  readable : next.lmdb.readable = true
  stored : Stored Output next.lmdb key
  spared : ∀ (index : ℕ) party loop, state.loops[index]? = some (party, loop) →
    ∃ moved, next.loops[index]? = some (party, moved) ∧ (party.policy = .use →
      ∀ item, cacheKey digest party.codeVersion party.backendName item.input = key →
        InBatch moved item → InBatch loop item)

omit [DecidableEq Digest] in
theorem Spared.refl {key : Digest} (readable : state.lmdb.readable = true)
    (stored : Stored Output state.lmdb key) : Spared digest key state state :=
  ⟨readable, stored, fun _ _ loop isLoop => ⟨loop, isLoop, fun _ _ _ isIn => isIn⟩⟩

theorem Spared.step {key : Digest} {middle : SharedState Input Output Digest Bytes Progress}
    (spared : Spared digest key state middle)
    (roundTrip : ∀ (output : Output) (bytes : Bytes), OutputJson.toVec output = some bytes →
      OutputJson.fromSlice bytes = some output)
    {event : SharedEvent Input Output Digest Bytes Progress} (keeps : event.KeepsReadable)
    (steps : middle.step digest event = some next) : Spared digest key state next := by
  rcases spared with ⟨readable, stored, spared⟩
  cases event with
  | transactions stillReadable writable =>
      cases steps
      exact ⟨keeps, stored, spared⟩
  | loop position event =>
      rcases SharedState.exists_fires steps with
        ⟨before, party, loop, after, moved, isLoops, isNext, isLmdb, own, fires⟩
      have traced := fires.traced own
      have kept : Stored Output next.lmdb key ∧ next.lmdb.readable = middle.lmdb.readable := by
        rw [isLmdb]
        rcases traced.cache with same | ⟨toCache, _, written⟩
        · rw [same]
          exact ⟨stored, rfl⟩
        · rw [written]
          exact stored.store roundTrip party party.backendName toCache
      refine ⟨kept.2.trans readable, kept.1, ?_⟩
      intro index party' loop' isLoop'
      rcases spared index party' loop' isLoop' with ⟨between, isBetween, sparedSoFar⟩
      rw [isLoops] at isBetween
      by_cases here : index = before.length
      · subst here
        have isHere : (party, loop) = (party', between) := by simpa using isBetween
        cases isHere
        refine ⟨moved, by simp [isNext], ?_⟩
        intro uses item sameKey isIn
        rcases fires.inBatch isIn with earlier | missed
        · exact sparedSoFar uses item sameKey earlier
        · subst sameKey
          have hit := cacheGet_isSome uses readable stored
          have missed : cacheGet digest party middle.lmdb party.backendName item.input =
            (none : Option Output) := missed
          rw [missed] at hit
          cases hit
      · refine ⟨between, ?_, sparedSoFar⟩
        rw [isNext, ← isBetween]
        simp only [List.getElem?_append, List.getElem?_cons]
        split
        · rfl
        · rw [if_neg (by omega), if_neg (by omega)]

theorem Spared.run {key : Digest} {middle : SharedState Input Output Digest Bytes Progress}
    (spared : Spared digest key state middle)
    (roundTrip : ∀ (output : Output) (bytes : Bytes), OutputJson.toVec output = some bytes →
      OutputJson.fromSlice bytes = some output)
    {events : List (SharedEvent Input Output Digest Bytes Progress)}
    (keep : ∀ event ∈ events, event.KeepsReadable)
    (runs : (sharedCache digest parties database).run middle events = some next) :
    Spared digest key state next := by
  induction events generalizing middle with
  | nil =>
      cases runs
      exact spared
  | cons event events ih =>
      rw [System.run_cons] at runs
      rcases Option.bind_eq_some_iff.mp runs with ⟨later, steps, rest⟩
      exact ih (spared.step roundTrip (keep event List.mem_cons_self) steps)
        (fun other isEvent => keep other (List.mem_cons_of_mem _ isEvent)) rest

end Hits

section Answers

variable {Input Output Digest Bytes Progress : Type} [CacheKey Input] [OutputJson Output Bytes]
  [DecidableEq Digest] {digest : String → Digest} {parties : List Party}
  {database : Lmdb Digest Bytes}
  {state next : SharedState Input Output Digest Bytes Progress}

/-- However the loops of all pipelines and processes take turns, an answer a loop gives is the
output its own backend returned for the item, or, if its policy reads the cache, one that was in
the database before, or one that a backend of the same name and build has returned to a loop
that writes, for an input of the same task and content. -/
theorem cached_answers_were_computed
    (roundTrip : ∀ (output : Output) (bytes : Bytes), OutputJson.toVec output = some bytes →
      OutputJson.fromSlice bytes = some output)
    (injective : Function.Injective digest) (free : ∀ party ∈ parties, BarFree party)
    (reachable : (sharedCache digest parties database).Reachable state) {party : Party}
    {loop : BatcherState (Lmdb Digest Bytes) Input Output Progress} {channel : ℕ}
    {output : Output} (isLoop : (party, loop) ∈ state.loops)
    (replied : (channel, .ok output) ∈ loop.replies) :
    ∃ item cache, (item, cache) ∈ loop.received ∧ item.reply = channel ∧
      (FromBatch party.backendName loop item output ∨ party.policy = .use ∧
        ((∃ bytes, database.entries
            (cacheKey digest party.codeVersion party.backendName item.input) = some bytes ∧
            OutputJson.fromSlice bytes = some output) ∨
          ∃ writer written input, (writer, written) ∈ state.loops ∧
            writer.policy ≠ .bypass ∧ writer.codeVersion = party.codeVersion ∧
            writer.backendName = party.backendName ∧
            CacheKey.task input = CacheKey.task item.input ∧
            CacheKey.content input = CacheKey.content item.input ∧
            Answered writer.backendName written input output)) := by
  have books := (sharedBooks digest parties database).reachable reachable
  have isParty : ∀ entry ∈ state.loops, BarFree entry.1 := by
    intro entry isEntry
    apply free
    rw [← books.parties]
    exact List.mem_map_of_mem isEntry
  rcases (books.books _ isLoop).justified _ replied with ⟨item, cache, isReceived, channel, reason⟩
  refine ⟨item, cache, isReceived, channel, ?_⟩
  rcases reason with cached | own
  · right
    rcases cacheGet_eq_some cached with ⟨uses, bytes, isEntry, decodes⟩
    refine ⟨uses, ?_⟩
    cases books.looked _ isLoop _ isReceived _ bytes isEntry with
    | before kept => exact .inl ⟨bytes, kept, decodes⟩
    | @written writer written input output' isWritten writes answered sameKey encodes =>
        right
        have isOutput : output' = output :=
          Option.some.inj ((roundTrip output' bytes encodes).symm.trans decodes)
        subst isOutput
        rcases eq_of_cacheKey_eq injective (isParty _ isWritten) (isParty _ isLoop) sameKey
          with ⟨builds, names, tasks, contents⟩
        exact ⟨writer, written, input, isWritten, writes, builds, names, tasks, contents,
          answered⟩
  · exact .inl own

/-- Once an answer is stored and the database stays readable, no request for the same content
is sent to a backend by a loop that reads the cache, unless it is in a batch already. -/
theorem stored_answers_are_not_recomputed
    (roundTrip : ∀ (output : Output) (bytes : Bytes), OutputJson.toVec output = some bytes →
      OutputJson.fromSlice bytes = some output)
    {key : Digest} (readable : state.lmdb.readable = true)
    (stored : Stored Output state.lmdb key)
    {events : List (SharedEvent Input Output Digest Bytes Progress)}
    (keep : ∀ event ∈ events, event.KeepsReadable)
    (runs : (sharedCache digest parties database).run state events = some next) :
    Stored Output next.lmdb key ∧ ∀ (index : ℕ) party loop,
      state.loops[index]? = some (party, loop) →
        ∃ moved, next.loops[index]? = some (party, moved) ∧ (party.policy = .use →
          ∀ item, cacheKey digest party.codeVersion party.backendName item.input = key →
            InBatch moved item → InBatch loop item) := by
  have spared := (Spared.refl readable stored).run roundTrip keep runs
  exact ⟨spared.stored, spared.spared⟩

end Answers

section Instances

/-- Requests and answers that are texts. -/
instance textKey : CacheKey String where
  task _ := .translate
  content text := text

instance textJson : OutputJson String String where
  toVec text := some text
  fromSlice bytes := some bytes

def writer : Party := ⟨"1.0", .refresh, "nllb", ⟨1⟩⟩

def reader : Party := ⟨"1.0", .use, "nllb", ⟨1⟩⟩

def emptyDatabase : Lmdb String String := ⟨fun _ => none, true, true⟩

abbrev TextState := SharedState String String String String Unit

/-- The first loop computes and stores a translation, and the second is asked for it. -/
def storedThenAsked : List (SharedEvent String String String String Unit) :=
  [.loop 0 (.send ⟨"hola", 0, ()⟩), .loop 0 .receive, .loop 0 (.returned (.outputs ["hello"])),
    .loop 0 .stored, .loop 1 (.send ⟨"hola", 0, ()⟩), .loop 1 .receive]

theorem reader_hits :
    ∃ state : TextState, ∃ loop, (reader, loop) ∈ state.loops ∧
      (0, .ok "hello") ∈ loop.replies ∧
      ∃ item cache, (item, cache) ∈ loop.received ∧ item.reply = 0 ∧
        (FromBatch reader.backendName loop item "hello" ∨ reader.policy = .use ∧
          ((∃ bytes, emptyDatabase.entries
              (cacheKey id reader.codeVersion reader.backendName item.input) = some bytes ∧
              OutputJson.fromSlice bytes = some "hello") ∨
            ∃ other written input, (other, written) ∈ state.loops ∧ other.policy ≠ .bypass ∧
              other.codeVersion = reader.codeVersion ∧
              other.backendName = reader.backendName ∧
              CacheKey.task input = CacheKey.task item.input ∧
              CacheKey.content input = CacheKey.content item.input ∧
              Answered other.backendName written input "hello")) := by
  have replies : ((sharedCache id [writer, reader] emptyDatabase).run
      (⟨emptyDatabase, [(writer, .start emptyDatabase), (reader, .start emptyDatabase)]⟩ :
        TextState) storedThenAsked).map
        (fun state => state.loops[1]?.map fun entry => (entry.1, entry.2.replies)) =
      some (some (reader, [(0, .ok "hello")])) := rfl
  rcases Option.map_eq_some_iff.mp replies with ⟨state, reaches, replied⟩
  rcases Option.map_eq_some_iff.mp replied with ⟨⟨party, loop⟩, isEntry, same⟩
  simp only [Prod.mk.injEq] at same
  rcases same with ⟨rfl, replied⟩
  have isLoop : (reader, loop) ∈ state.loops := List.mem_of_getElem? isEntry
  have isReply : ((0, .ok "hello") : ℕ × BAResult String) ∈ loop.replies := by simp [replied]
  refine ⟨state, loop, isLoop, isReply, ?_⟩
  exact cached_answers_were_computed (fun _ _ encodes => encodes.symm) Function.injective_id
    (by decide) ⟨_, _, rfl, reaches⟩ isLoop isReply

/-- The database when the translation is stored. -/
def filledDatabase : Lmdb String String where
  entries := Function.update (fun _ => none) (cacheKey id "1.0" "nllb" "hola") (some "hello")
  readable := true
  writable := true

def readerOnly : TextState := ⟨filledDatabase, [(reader, .start filledDatabase)]⟩

/-- Nothing is sent to the backend of the reader. -/
theorem reader_spared :
    ∃ next : TextState, Stored String next.lmdb (cacheKey id "1.0" "nllb" "hola") ∧
      ∀ (index : ℕ) party loop, readerOnly.loops[index]? = some (party, loop) →
        ∃ moved, next.loops[index]? = some (party, moved) ∧ (party.policy = .use →
          ∀ item, cacheKey id party.codeVersion party.backendName item.input =
              cacheKey id "1.0" "nllb" "hola" → InBatch moved item → InBatch loop item) := by
  have reaches : ((sharedCache id [reader] filledDatabase).run readerOnly
      [.loop 0 (.send ⟨"hola", 0, ()⟩), .loop 0 .receive]).isSome := rfl
  rcases Option.isSome_iff_exists.mp reaches with ⟨next, reaches⟩
  refine ⟨next, ?_⟩
  exact stored_answers_are_not_recomputed (fun _ _ encodes => encodes.symm) rfl
    ⟨"hello", "hello", by simp [readerOnly, filledDatabase], rfl⟩
    (by simp [SharedEvent.KeepsReadable]) reaches

end Instances

end Batchalign.Engine
