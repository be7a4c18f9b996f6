import Mathlib

/-!
# The CHAT model

The part of the `talkbank_model` transcript type that the modelled stages read
and write. Source spans, which no stage reads, are left out. Of the content
variants those are told apart that a stage matches on or that decide how words
are found: every group shape is `group`, and every variant that holds no words
is `other`.

The walkers and word filters belong to a library outside this repository, so
they are the fields of `Talkbank`, and what a result relies on is a hypothesis
about them.
-/

namespace Batchalign.Chat

structure Timing where
  startMs : ℕ
  endMs : ℕ
deriving DecidableEq, Repr

inductive BulletSource where
  | authoritative
  | utr
deriving DecidableEq, Repr

structure Bullet where
  timing : Timing
  source : BulletSource
deriving DecidableEq, Repr

def Bullet.new (startMs endMs : ℕ) : Bullet where
  timing := ⟨startMs, endMs⟩
  source := .authoritative

def Bullet.utrHint (startMs endMs : ℕ) : Bullet where
  timing := ⟨startMs, endMs⟩
  source := .utr

inductive WordCategory where
  | omission
  | caOmission
  | filler
  | nonword
  | phonologicalFragment
deriving DecidableEq, Repr

structure Word where
  cleanedText : String
  category : Option WordCategory
  inlineBullet : Option Bullet
deriving DecidableEq, Repr

/-- `Word::simple`. -/
def Word.simple (text : String) : Word where
  cleanedText := text
  category := none
  inlineBullet := none

def Word.withInlineBullet (word : Word) (bullet : Bullet) : Word :=
  { word with inlineBullet := some bullet }

inductive UtteranceContent where
  | word (word : Word)
  | replacedWord (word : Word) (replacement : List Word)
  | group (content : List UtteranceContent)
  | retrace (content : List UtteranceContent)
  | separator (text : String)
  | other (text : String)
deriving Repr, BEq

def UtteranceContent.isRetrace : UtteranceContent → Bool
  | .retrace _ => true
  | _ => false

def UtteranceContent.isSeparator : UtteranceContent → Bool
  | .separator _ => true
  | _ => false

/-- What the word walker hands to its callback. -/
inductive WordItem where
  | word (word : Word)
  | replacedWord (word : Word) (replacement : List Word)
  | separator (text : String)
deriving DecidableEq, Repr

inductive TierDomain where
  | mor
  | pho
  | sin
  | wor
deriving DecidableEq, Repr

structure ExtractedWord where
  text : String
deriving DecidableEq, Repr

/-- The functions of `talkbank_model` and `talkbank_transform` that the stages call. -/
class Talkbank where
  walkWords : List UtteranceContent → Option TierDomain → List WordItem
  countsForTier : Word → TierDomain → Bool
  collectUtteranceContent : List UtteranceContent → TierDomain → List ExtractedWord

inductive Terminator where
  | period
  | question
  | exclamation
  | trailingOff
  | interruption
  | selfInterruption
  | other (text : String)
deriving DecidableEq, Repr

inductive WorItem where
  | word (word : Word)
  | separator (text : String)
deriving DecidableEq, Repr

structure WorTier where
  languageCode : Option String
  items : List WorItem
  terminator : Option Terminator
  bullet : Option Bullet
deriving DecidableEq, Repr

/-- The words of a `%wor` tier, in order. -/
def WorTier.words (tier : WorTier) : List Word :=
  tier.items.filterMap fun
    | .word word => some word
    | .separator _ => none

def WorTier.wordCount (tier : WorTier) : ℕ := tier.words.length

def WorTier.fromWords (words : List Word) : WorTier where
  languageCode := none
  items := words.map .word
  terminator := none
  bullet := none

def WorTier.withTerminator (tier : WorTier) (terminator : Option Terminator) : WorTier :=
  { tier with terminator := terminator }

/-- A tier other than `%wor` keeps its written content. -/
inductive DependentTier where
  | wor (tier : WorTier)
  | mor (content : String)
  | gra (content : String)
  | pho (content : String)
  | mod (content : String)
  | sin (content : String)
  | modsyl (content : String)
  | phosyl (content : String)
  | phoaln (content : String)
  | userDefined (label : String) (content : Option String)
  | text (label content : String)
deriving DecidableEq, Repr

def DependentTier.isWor : DependentTier → Bool
  | .wor _ => true
  | _ => false

def DependentTier.wor? : DependentTier → Option WorTier
  | .wor tier => some tier
  | _ => none

structure TierContent where
  linkers : List String
  languageCode : Option String
  content : List UtteranceContent
  terminator : Option Terminator
  postcodes : List String
  bullet : Option Bullet
deriving Repr

structure MainTier where
  speaker : String
  content : TierContent
deriving Repr

/-- `MainTier::new`. -/
def MainTier.new (speaker : String) (content : List UtteranceContent)
    (terminator : Terminator) : MainTier where
  speaker := speaker
  content :=
    { linkers := [], languageCode := none, content := content, terminator := some terminator,
      postcodes := [], bullet := none }

structure Utterance where
  main : MainTier
  dependentTiers : List DependentTier
deriving Repr

/-- `Utterance::new`. -/
def Utterance.new (main : MainTier) : Utterance where
  main := main
  dependentTiers := []

/-- The content items of the main tier. -/
abbrev Utterance.items (utt : Utterance) : List UtteranceContent := utt.main.content.content

abbrev Utterance.bullet (utt : Utterance) : Option Bullet := utt.main.content.bullet

def Utterance.withBullet (utt : Utterance) (bullet : Option Bullet) : Utterance :=
  { utt with main := { utt.main with content := { utt.main.content with bullet := bullet } } }

@[simp] theorem Utterance.withBullet_bullet (utt : Utterance) (bullet : Option Bullet) :
    (utt.withBullet bullet).bullet = bullet := rfl

/-- The first `%wor` tier. -/
def Utterance.worTier (utt : Utterance) : Option WorTier :=
  utt.dependentTiers.findSome? DependentTier.wor?

structure ParticipantEntry where
  speakerCode : String
  name : Option String
  role : String
deriving DecidableEq, Repr

structure IdHeader where
  language : String
  corpus : Option String
  speaker : String
  role : String
deriving DecidableEq, Repr

structure Participant where
  code : String
  name : Option String
  role : String
  id : IdHeader
deriving DecidableEq, Repr

/-- A comment is given by its text. -/
inductive Header where
  | participants (entries : List ParticipantEntry)
  | id (header : IdHeader)
  | comment (text : String)
  | other (text : String)
deriving DecidableEq, Repr

inductive Line where
  | header (header : Header)
  | utterance (utt : Utterance)
  | other (text : String)
deriving Repr

def Line.utterance? : Line → Option Utterance
  | .utterance utt => some utt
  | _ => none

def Line.isUtterance : Line → Bool
  | .utterance _ => true
  | _ => false

/-- The declared participants in order, one for each code. -/
structure Participants where
  entries : List (String × Participant)
  nodup : (entries.map Prod.fst).Nodup

namespace Participants

def keys (participants : Participants) : List String :=
  participants.entries.map Prod.fst

def values (participants : Participants) : List Participant :=
  participants.entries.map Prod.snd

def containsKey (participants : Participants) (code : String) : Bool :=
  participants.keys.contains code

theorem keys_nodup (participants : Participants) : participants.keys.Nodup :=
  participants.nodup

/-- Inserting under a new code appends; under an old one it replaces the value in place. -/
def insert (participants : Participants) (code : String) (participant : Participant) :
    Participants :=
  if absent : participants.containsKey code = false then
    { entries := participants.entries ++ [(code, participant)]
      nodup := by
        simp only [containsKey, keys, List.contains_eq_mem, decide_eq_false_iff_not] at absent
        simp only [List.map_append, List.map_cons, List.map_nil]
        apply List.Nodup.append participants.nodup (by simp)
        simpa using absent }
  else
    { entries := participants.entries.map fun entry =>
        if entry.1 = code then (code, participant) else entry
      nodup := by
        have same : (participants.entries.map fun entry =>
            if entry.1 = code then (code, participant) else entry).map Prod.fst =
            participants.entries.map Prod.fst := by
          rw [List.map_map]
          apply List.map_congr_left
          intro entry _
          by_cases here : entry.1 = code <;> simp [here]
        rw [same]
        exact participants.nodup }

end Participants

structure ChatFile where
  participants : Participants
  lines : List Line

/-- The utterances in document order. -/
def ChatFile.utterances (chat : ChatFile) : List Utterance :=
  chat.lines.filterMap Line.utterance?

end Batchalign.Chat
