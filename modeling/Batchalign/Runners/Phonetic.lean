import Batchalign.Engine.Pipeline
import Batchalign.Runners.Surroundings

/-!
# The phonetic runner

`apply` of `taskrunners/phonetic.rs`. The answer is written into a copy of the transcript,
which takes the place of the transcript after the output check.
-/

namespace Batchalign.Runners

open Batchalign.Chat Batchalign.Compare Batchalign.Engine

section Payloads

structure PhoneticUnit where
  text : String
  pause : Bool
deriving DecidableEq, Repr

/-- The index is that of the line. -/
structure PhoneticUtterance where
  index : ℕ
  startMs : ℕ
  endMs : ℕ
  units : List PhoneticUnit
deriving DecidableEq, Repr

structure PhoneticInput where
  sourceId : String
  audio : PreparedAudio
  language : String
  utterances : List PhoneticUtterance
deriving DecidableEq, Repr

structure PhoneticResult where
  index : ℕ
  ipa : List String
deriving DecidableEq, Repr

structure PhoneticOutput where
  sourceId : String
  utterances : List PhoneticResult
deriving DecidableEq, Repr

end Payloads

section Extraction

structure TierPosition where
  text : String
  description : Option String
deriving DecidableEq, Repr

/-- `collect_tier_items` in the phonological domain, and the content of a `%pho` tier. -/
class PhoTiers where
  collectTierItems : List UtteranceContent → List TierPosition
  fromTokens : List String → String

def isPhoTier : DependentTier → Bool
  | .pho _ => true
  | _ => false

variable [PhoTiers]

def phoneticUnits (utt : Utterance) : List PhoneticUnit :=
  (PhoTiers.collectTierItems utt.items).map fun position =>
    ⟨position.text, position.description == some "pause"⟩

/-- Utterances that have no `%pho` tier yet, have units and are timed. -/
def phoneticUtterance (index : ℕ) (utt : Utterance) : Option PhoneticUtterance :=
  let units := phoneticUnits utt
  if utt.dependentTiers.any isPhoTier || units.isEmpty then none
  else ((utt.bullet.map Bullet.timing).filter fun timing => timing.endMs > timing.startMs).map
    fun timing => ⟨index, timing.startMs, timing.endMs, units⟩

def extractUtterances (chat : ChatFile) : List PhoneticUtterance :=
  chat.lines.zipIdx.filterMap fun (line, index) => line.utterance?.bind (phoneticUtterance index)

end Extraction

section Injection

/-- The general category `Cc`. -/
def isControl (c : Char) : Bool :=
  c.toNat < 0x20 || (0x7F ≤ c.toNat && c.toNat < 0xA0)

def invalidUnit (unit : PhoneticUnit) (ipa : String) : Bool :=
  (unit.pause && ipa ≠ unit.text) || ipa.isEmpty ||
    ipa.toList.any fun c => isWhitespace c || isControl c

def isStress (c : Char) : Bool := c = 'ˈ' || c = 'ˌ'

def affricates : List String := ["tʃ", "t\u0361", "t\u035c"]

/-- Aspirated stops before the others. -/
def initialStops : List (String × String) :=
  [("pʰ", "p"), ("tʰ", "t"), ("kʰ", "k"), ("p", "b"), ("t", "d"), ("k", "ɡ")]

def normalizeEnglishInitialStop (ipa : String) : String :=
  let stress := ipa.toList.takeWhile isStress
  let onset := ipa.toList.dropWhile isStress
  if affricates.any fun affricate => affricate.toList.isPrefixOf onset then ipa
  else
    match initialStops.find? fun stop => stop.1.toList.isPrefixOf onset with
    | some (stop, replacement) =>
        String.ofList (stress ++ replacement.toList ++ onset.drop stop.toList.length)
    | none => ipa

def normalizedUnit (english : Bool) (unit : PhoneticUnit) (ipa : String) : String :=
  if english && !unit.pause then normalizeEnglishInitialStop ipa else ipa

variable [PhoTiers]

def pushPho (ipa : List String) : Line → Line
  | .utterance utt =>
      .utterance { utt with
        dependentTiers := utt.dependentTiers ++ [.pho (PhoTiers.fromTokens ipa)] }
  | line => line

/-- The lines of the copy with the tiers. -/
def pushResults (english : Bool) :
    List (PhoneticUtterance × PhoneticResult) → List Line → BAResult (List Line)
  | [], lines => .ok lines
  | (input, result) :: rows, lines =>
      if result.index ≠ input.index || result.ipa.length ≠ input.units.length then
        .error (.worker "phonetic: result unit ownership mismatch")
      else
        match (input.units.zip result.ipa).find? fun row => invalidUnit row.1 row.2 with
        | some (_, ipa) => .error (.worker s!"phonetic: invalid IPA unit {debugText ipa}")
        | none =>
            let ipa := List.zipWith (normalizedUnit english) input.units result.ipa
            pushResults english rows (lines.modify input.index (pushPho ipa))

variable [ChatBuilder] [ChatFormat] [ValidationGates]

/-- `inject_tiers`. -/
def injectPhoTiers (chat : Chat) (inputs : List PhoneticUtterance) (output : PhoneticOutput) :
    BAResult Chat := do
  if inputs.length ≠ output.utterances.length then
    .error (.worker "phonetic: utterance/output count mismatch")
  let english := primaryLanguage chat == some "eng"
  let lines ← pushResults english (inputs.zip output.utterances) chat.ast.lines
  let revised := { chat with ast := { chat.ast with lines := lines } }
  validateStage .phonetic .post revised
  return revised

end Injection

section Apply

variable [PhoTiers] [ChatBuilder] [ChatFormat] [ValidationGates] [MediaAccess]

def phoneticChat (backend : PhoneticInput → BAResult PhoneticOutput) (chat : Chat) :
    RunnerOutcome :=
  let inputs := extractUtterances chat.ast
  if inputs.isEmpty then ⟨.ok (), .chat chat, []⟩
  else
    match (mediaOf (.validation "phonetic requires @Media or sibling audio") chat).bind
      preparedAudio with
    | .error error => ⟨.error error, .chat chat, []⟩
    | .ok audio =>
        let started := [.stageStarted chat.sourceId .phonetic,
          scaledTick chat.sourceId .phonetic 0 1]
        let language := (primaryLanguage chat).getD ""
        match (backend ⟨chat.sourceId, audio, language, inputs⟩).bind
          (injectPhoTiers chat inputs) with
        | .error error => ⟨.error error, .chat chat, started⟩
        | .ok revised =>
            ⟨.ok (), .chat revised, started ++ [.stageInjected chat.sourceId .phonetic ""]⟩

def phoneticRunner (backend : PhoneticInput → BAResult PhoneticOutput) : Runner :=
  onChat (fun kind => .validation s!"phonetic requires CHAT, got {kind}") (phoneticChat backend)

/-- Only the copy is changed before the last error. -/
theorem phoneticRunner_keeps (backend : PhoneticInput → BAResult PhoneticOutput)
    (value : BAValue) : KeepsValue (phoneticRunner backend) value := by
  apply onChat_keeps
  intro chat
  simp only [phoneticChat]
  split
  · exact keeps_ok _ _ _
  · split
    · exact keeps_error _ _ _
    · split
      · exact keeps_error _ _ _
      · exact keeps_ok _ _ _

end Apply

end Batchalign.Runners
