import Batchalign.Chat.Basic
import Batchalign.Text

/-!
# The documented walkers

An implementation of the external walkers that follows the tier-domain table of
the architecture notes: `%mor` skips retraces, fillers, nonwords, fragments and
untranscribed words and counts tag markers, `%wor` keeps fillers and retraces and
no separator. With it come a writer for plain transcripts, the case mapping of
ASCII and exact arithmetic. They serve to run the stages on concrete transcripts;
no general result depends on them.
-/

namespace Batchalign.Chat.Documented

open Batchalign.Chat

mutual

/-- The word items below one content item. -/
def walkItem (domain : Option TierDomain) : UtteranceContent → List WordItem
  | .word word => [.word word]
  | .replacedWord word replacement => [.replacedWord word replacement]
  | .separator text => [.separator text]
  | .group content => walkItems domain content
  | .retrace content => if domain = some .mor then [] else walkItems domain content
  | .other _ => []

def walkItems (domain : Option TierDomain) : List UtteranceContent → List WordItem
  | [] => []
  | item :: items => walkItem domain item ++ walkItems domain items

end

def untranscribed (word : Word) : Bool :=
  ["xxx", "yyy", "www"].contains word.cleanedText

def countsForTier (word : Word) : TierDomain → Bool
  | .mor =>
      !untranscribed word && word.category != some .filler && word.category != some .nonword &&
        word.category != some .phonologicalFragment && word.category != some .omission
  | .wor =>
      !untranscribed word && word.category != some .nonword &&
        word.category != some .phonologicalFragment
  | .pho | .sin => true

/-- The words an item contributes to a tier. -/
def extractItem (domain : TierDomain) : WordItem → List ExtractedWord
  | .word word => if countsForTier word domain then [⟨word.cleanedText⟩] else []
  | .replacedWord word replacement =>
      let aligned := if domain = .mor && !replacement.isEmpty then replacement else [word]
      (aligned.filter (countsForTier · domain)).map fun word => ⟨word.cleanedText⟩
  | .separator text =>
      if domain = .mor && [",", "„", "‡"].contains text then [⟨text⟩] else []

instance talkbank : Talkbank where
  walkWords content domain := walkItems domain content
  countsForTier := countsForTier
  collectUtteranceContent content domain :=
    (walkItems (some domain) content).flatMap (extractItem domain)

def filler (text : String) : Word :=
  { Word.simple text with category := some .filler }

def timedWord (text : String) (startMs endMs : ℕ) : Word :=
  (Word.simple text).withInlineBullet (Bullet.new startMs endMs)

section Writing

mutual

def writeItem : UtteranceContent → String
  | .word word => word.cleanedText
  | .replacedWord word replacement =>
      word.cleanedText ++ " [: " ++ " ".intercalate (replacement.map Word.cleanedText) ++ "]"
  | .group content => "<" ++ writeItems content ++ ">"
  | .retrace content => "<" ++ writeItems content ++ "> [/]"
  | .separator text | .other text => text

def writeItems : List UtteranceContent → String
  | [] => ""
  | [item] => writeItem item
  | item :: items => writeItem item ++ " " ++ writeItems items

end

def writeTerminator : Terminator → String
  | .period => "."
  | .question => "?"
  | .exclamation => "!"
  | .trailingOff => "+..."
  | .interruption => "+/."
  | .selfInterruption => "+//."
  | .other text => text

def writeTier : DependentTier → String
  | .wor tier => "%wor:\t" ++ " ".intercalate (tier.words.map Word.cleanedText) ++ "\n"
  | .mor content => "%mor:\t" ++ content ++ "\n"
  | .gra content => "%gra:\t" ++ content ++ "\n"
  | .pho content => "%pho:\t" ++ content ++ "\n"
  | .mod content => "%mod:\t" ++ content ++ "\n"
  | .sin content => "%sin:\t" ++ content ++ "\n"
  | .modsyl content => "%modsyl:\t" ++ content ++ "\n"
  | .phosyl content => "%phosyl:\t" ++ content ++ "\n"
  | .phoaln content => "%phoaln:\t" ++ content ++ "\n"
  | .userDefined label content => "%" ++ label ++ ":\t" ++ content.getD "" ++ "\n"
  | .text label content => "%" ++ label ++ ":\t" ++ content ++ "\n"

def writeHeader : Header → String
  | .participants entries =>
      "@Participants:\t" ++ ", ".intercalate (entries.map fun entry =>
        " ".intercalate (entry.speakerCode :: entry.name.toList ++ [entry.role])) ++ "\n"
  | .id header =>
      "@ID:\t" ++ "|".intercalate [header.language, header.corpus.getD "", header.speaker, "", "",
        "", "", header.role, "", "", ""] ++ "\n"
  | .comment text => "@Comment:\t" ++ text ++ "\n"
  | .other text => text ++ "\n"

def writeUtterance (utt : Utterance) : String :=
  "*" ++ utt.main.speaker ++ ":\t" ++ writeItems utt.items ++
    ((utt.main.content.terminator.map fun terminator =>
      " " ++ writeTerminator terminator).getD "") ++
    "\n" ++ String.join (utt.dependentTiers.map writeTier)

def writeChat (chat : ChatFile) : String :=
  String.join (chat.lines.map fun
    | .header header => writeHeader header
    | .utterance utt => writeUtterance utt
    | .other text => text ++ "\n")

end Writing

instance asciiCase : UnicodeCase where
  toLowercase := String.map Char.toLower
  toUppercase := String.map Char.toUpper

/-- Exact arithmetic, and four decimals rounded half up. -/
instance exactFloat : Float64 where
  round q := q
  format4 q :=
    let scaled := (q * 10000 + 1 / 2).floor
    let decimals := (toString (scaled.natAbs % 10000)).toList.leftpad 4 '0'
    (if scaled < 0 then "-" else "") ++ s!"{scaled.natAbs / 10000}." ++ String.ofList decimals

end Batchalign.Chat.Documented
