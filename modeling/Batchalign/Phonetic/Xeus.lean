import Batchalign.Phonetic.Inference

/-!
# The phonetic backend

`call` of `backends/phonetic/xeus.py`. The windows of a recording are sorted by their length and
transcribed in batches, and the phones of a window go to the units it was made for. The warnings
and the progress are left out. The pronunciation of a unit and the resampling are parameters.
-/

namespace Batchalign.Phonetic

open Batchalign.Alignment (Similarity)

section Data

structure PhoneticInput where
  sourceId : String
  pcmF32le : List UInt8
  sampleRate : ℕ
  language : String
  utterances : List PhoneticUtterance
deriving DecidableEq, Repr

structure PhoneticResult where
  index : ℕ
  ipa : List String
deriving DecidableEq, Repr

structure PhoneticOutput where
  sourceId : String
  utterances : List PhoneticResult
deriving DecidableEq, Repr

inductive PhoneticError where
  | sampleRate
  | bufferSize
  | outsideAudio (index : ℕ)
  | windowCount
  | indexError
  | pronunciation (text : String)
  | projection (error : ProjectionError)
deriving DecidableEq, Repr

/-- The texts that the backend raises itself, and those it passes on. -/
def PhoneticError.message (repr : String → String) : PhoneticError → Option String
  | sampleRate => some "PhoneticXeus requires a positive audio sample rate"
  | bufferSize => some "buffer size must be a multiple of element size"
  | outsideAudio index => some s!"Utterance {index} is outside the audio"
  | windowCount => some "PhoneticXeus returned the wrong number of windows"
  | indexError => none
  | pronunciation text => some text
  | projection error => error.message repr

/-- A window and the units it is transcribed for: the position of the utterance and of the unit
in it. -/
structure Job where
  start : ℕ
  stop : ℕ
  owners : List (ℕ × ℕ)
deriving DecidableEq, Repr

end Data

section Backend

/-- A revision is a commit, and a batch has a window at least. -/
structure XeusBackend where
  revision : String
  device : Option String
  batchSize : Option ℕ
  pinned : revision.length = 40 ∧ revision.toList.all fun c => "0123456789abcdef".toList.contains c
  positive : ∀ size ∈ batchSize, 0 < size

/-- The checks of `__init__`. -/
def XeusBackend.create (revision : String) (device : Option String) (batchSize : Option ℤ) :
    Except String XeusBackend :=
  if pinned : revision.length = 40 ∧
      revision.toList.all fun c => "0123456789abcdef".toList.contains c then
    match batchSize with
    | none => .ok ⟨revision, device, none, pinned, fun _ absent => nomatch absent⟩
    | some size =>
        if positive : 1 ≤ size then
          .ok ⟨revision, device, some size.toNat, pinned, fun _ same =>
            Option.some.inj same ▸ Int.pos_iff_toNat_pos.mp positive⟩
        else .error "batch_size must be positive"
  else .error "PhoneticXeus revision must be an immutable 40-character commit SHA"

def XeusBackend.deviceName (backend : XeusBackend) (cudaAvailable : Bool) : String :=
  match backend.device with
  | some device => if device.isEmpty then fallback else device
  | none => fallback
where fallback := if cudaAvailable then "cuda" else "cpu"

def XeusBackend.windowsAtOnce (backend : XeusBackend) (cudaAvailable : Bool) : ℕ :=
  backend.batchSize.getD (if (backend.deviceName cudaAvailable).startsWith "cuda" then 2 else 1)

end Backend

section Jobs

/-- `np.frombuffer(pcm, dtype="<f4")`. -/
def frombuffer : List UInt8 → Except PhoneticError (List Sample)
  | [] => .ok []
  | a :: b :: c :: d :: rest => do
      let samples ← frombuffer rest
      return (a, b, c, d) :: samples
  | _ => .error .bufferSize

def sampleAt (sampleRate ms : ℕ) : ℕ := ms * sampleRate / 1000

def checkWindow (sampleRate samples : ℕ) (utterance : PhoneticUtterance) :
    Except PhoneticError Unit :=
  if sampleAt sampleRate utterance.startMs < sampleAt sampleRate utterance.endMs ∧
      sampleAt sampleRate utterance.endMs ≤ samples then .ok ()
  else .error (.outsideAudio utterance.index)

/-- The results before any transcription. -/
def blankResult (utterance : PhoneticUtterance) : PhoneticResult :=
  ⟨utterance.index, utterance.units.map fun unit => if unit.pause then unit.text else unresolved⟩

/-- The units of an utterance that are no pauses. -/
def spokenUnits (utterances : List PhoneticUtterance) (u : ℕ) : List (ℕ × ℕ) :=
  match utterances[u]? with
  | none => []
  | some utterance =>
      (utterance.units.zipIdx.filter fun (unit, _) => ! unit.pause).map fun (_, w) => (u, w)

def jobOf (utterances : List PhoneticUtterance) (group : List ℕ) : Option Job :=
  let owners := group.flatMap (spokenUnits utterances)
  if owners.isEmpty then none
  else match firstOf utterances group, lastOf utterances group with
    | some first, some last => some ⟨first.startMs, last.endMs, owners⟩
    | _, _ => none

def jobsOf (utterances : List PhoneticUtterance) : List Job :=
  (groupUtterances utterances).filterMap (jobOf utterances)

/-- `jobs.sort(key=lambda job: job[1] - job[0])`, which is stable. -/
def sortJobs (jobs : List Job) : List Job :=
  jobs.insertionSort fun one other => (one.stop : ℤ) - one.start ≤ (other.stop : ℤ) - other.start

/-- The slices at the offsets of `range(0, len(jobs), size)`. -/
def batchesOf (size : ℕ) (jobs : List Job) : List (List Job) :=
  (List.range ((jobs.length + size - 1) / size)).map fun k => (jobs.drop (k * size)).take size

end Jobs

section Call

variable [UnicodeData] (Threshold : Type) [Similarity Threshold]

/-- What the backend works with. -/
structure Tools where
  coreBuilt : Bool
  model : AcousticModel
  /-- `self.pronunciations`, of a text in a language. -/
  pronounce : String → String → Except String String
  /-- `torchaudio.functional.resample`, from one rate to another. -/
  resample : List Sample → ℕ → ℕ → List Sample

variable (tools : Tools)

def ownerReference (item : PhoneticInput) (owner : ℕ × ℕ) : Except PhoneticError String :=
  match item.utterances[owner.1]?.bind (·.units[owner.2]?) with
  | none => .error .indexError
  | some unit => (tools.pronounce unit.text item.language).mapError .pronunciation

/-- The pronunciations of the units of a window. -/
def jobReference (item : PhoneticInput) (job : Job) : Except PhoneticError (List String) :=
  job.owners.mapM (ownerReference tools item)

/-- The audio of a window, as the model expects it. -/
def jobAudio (item : PhoneticInput) (waveform : List Sample) (job : Job) : List Sample :=
  let audio := (waveform.take (sampleAt item.sampleRate job.stop)).drop
    (sampleAt item.sampleRate job.start)
  if item.sampleRate ≠ 16000 then tools.resample audio item.sampleRate 16000 else audio

/-- `results[u].ipa[w] = value`. -/
def assignUnit (results : List PhoneticResult) (write : (ℕ × ℕ) × String) :
    Except PhoneticError (List PhoneticResult) :=
  match results[write.1.1]? with
  | none => .error .indexError
  | some result =>
      if write.1.2 < result.ipa.length then
        .ok (results.set write.1.1 { result with ipa := result.ipa.set write.1.2 write.2 })
      else .error .indexError

/-- The units of one window get their phones. -/
def assignJob (results : List PhoneticResult) (work : Job × List String × List String) :
    Except PhoneticError (List PhoneticResult) := do
  let units ← (projectPhones Threshold tools.coreBuilt work.2.1 work.2.2).mapError .projection
  (work.1.owners.zip units).foldlM assignUnit results

def runBatch (item : PhoneticInput) (waveform : List Sample) (results : List PhoneticResult)
    (current : List Job) : Except PhoneticError (List PhoneticResult) := do
  let references ← current.mapM (jobReference tools item)
  let audioBatch := current.map (jobAudio tools item waveform)
  match transcribeBatch tools.model audioBatch with
  | none => throw .indexError
  | some phoneBatch =>
      if phoneBatch.length ≠ current.length then throw .windowCount
      else (current.zip (phoneBatch.zip references)).foldlM (assignJob Threshold tools) results

/-- The loop body over the items, with batches of `size` windows. -/
def callItem (size : ℕ) (item : PhoneticInput) : Except PhoneticError PhoneticOutput := do
  if item.sampleRate = 0 then throw .sampleRate
  let waveform ← frombuffer item.pcmF32le
  item.utterances.forM (checkWindow item.sampleRate waveform.length)
  let jobs := sortJobs (jobsOf item.utterances)
  let results ← (batchesOf size jobs).foldlM (runBatch Threshold tools item waveform)
    (item.utterances.map blankResult)
  return ⟨item.sourceId, results⟩

def XeusBackend.call (backend : XeusBackend) (cudaAvailable : Bool) (batch : List PhoneticInput) :
    Except PhoneticError (List PhoneticOutput) :=
  batch.mapM (callItem Threshold tools (backend.windowsAtOnce cudaAvailable))

end Call

end Batchalign.Phonetic
