import Batchalign.Chat.Basic
import Batchalign.Text

/-!
# Words of a transcript

The token extraction of `backends/compare.rs`: the spoken words of every utterance
with the part of speech of their `%mor` item, and `conform`, which expands
contractions and colloquialisms.
-/

namespace Batchalign.Compare

open Batchalign.Chat

structure SrcWord where
  uttIdx : ℕ
  text : String
  pos : String
deriving DecidableEq, Repr

structure ConformedTok where
  text : String
  srcIdx : ℕ
deriving DecidableEq, Repr

/-- The text of a terminator that the comparison puts back, for each utterance. -/
def extractGoldTerminators (chat : ChatFile) : List (Option String) :=
  chat.utterances.map fun utt =>
    match utt.main.content.terminator with
    | some .period => some "."
    | some .question => some "?"
    | some .exclamation => some "!"
    | some .trailingOff => some "+..."
    | some .interruption => some "+/."
    | some .selfInterruption => some "+//."
    | _ => none

/-- The text of one word item: of a replacement its first word, unless that is empty. -/
def rawWord : WordItem → Option String
  | .word word => some word.cleanedText
  | .replacedWord word replacement =>
      let replaced := (replacement.head?.map Word.cleanedText).getD ""
      some (if replaced.isEmpty then word.cleanedText else replaced)
  | .separator _ => none

/-- The content of the `%mor` tier, parsed or user-defined. -/
def morContent (utt : Utterance) : Option String :=
  (utt.dependentTiers.findSome? fun
      | .mor content => some content
      | _ => none).or
    (utt.dependentTiers.findSome? fun
      | .userDefined label content => if label = "mor" then content else none
      | _ => none)

/-- A `%mor` entry that is punctuation only. -/
def isTerminatorEntry (entry : String) : Bool :=
  entry.toList.all fun c => c == '.' || c == '?' || c == '!'

section

variable [UnicodeCase]

/-- The part of speech of a `%mor` entry. -/
def entryPos (entry : String) : String :=
  UnicodeCase.toUppercase (String.ofList (entry.toList.takeWhile (· != '|')))

def utterancePosByIndex (utt : Utterance) : Option (List String) :=
  (morContent utt).map fun content =>
    ((splitWhitespace content).filter (! isTerminatorEntry ·)).map entryPos

def isFiller (text : String) : Bool :=
  ["um", "uhm", "em", "mhm", "uhhm", "eh", "uh", "hm"].contains (UnicodeCase.toLowercase text)

/-- The words of one utterance. The part of speech is looked up by the position among all
word items, fillers included. -/
def utteranceWords [Talkbank] (uttIdx : ℕ) (utt : Utterance) : List SrcWord :=
  let rawWords := (Talkbank.walkWords utt.items none).filterMap rawWord
  let morPos := utterancePosByIndex utt
  rawWords.zipIdx.filterMap fun (raw, idx) =>
    let trimmed := trim raw
    if trimmed.isEmpty || isFiller trimmed then none
    else some ⟨uttIdx, trimmed, (morPos.bind (·[idx]?)).getD "?"⟩

def extractWords [Talkbank] (chat : ChatFile) : List SrcWord :=
  chat.utterances.zipIdx.flatMap fun (utt, uttIdx) => utteranceWords uttIdx utt

/-- Contracted endings with what they stand for. -/
def aposVariants : List (String × String) :=
  [("'s", "is"), ("’s", "is"), ("'ve", "have"), ("’ve", "have"), ("'d", "had"), ("’d", "had"),
    ("'m", "am"), ("’m", "am")]

def colloquialisms : List (String × List String) :=
  [("ok", ["okay"]), ("gimme", ["give", "me"]), ("hafta", ["have", "to"]),
    ("havta", ["have", "to"]), ("hadta", ["had", "to"]), ("dunno", ["don't", "know"]),
    ("wanna", ["want", "to"]), ("gonna", ["going", "to"]), ("gotta", ["got", "to"]),
    ("kinda", ["kind", "of"]), ("sorta", ["sort", "of"]), ("lemme", ["let", "me"]),
    ("outta", ["out", "of"]), ("shoulda", ["should", "have"]), ("sposta", ["supposed", "to"]),
    ("alright", ["all", "right"]), ("alrightie", ["all", "right"]), ("this'll", ["this", "will"]),
    ("this’ll", ["this", "will"]), ("i'd", ["i", "had"]), ("i’d", ["i", "had"]),
    ("farmhouse", ["farm", "house"]), ("til", ["until"]), ("ed", ["education"]), ("mm", ["hm"]),
    ("hmm", ["hm"]), ("eh", ["uh"]), ("em", ["them"]), ("mba", ["m", "b", "a"]),
    ("tli", ["t", "l", "i"]), ("bbc", ["b", "b", "c"]), ("ai", ["a", "i"]), ("ii", ["i", "i"]),
    ("aa", ["a", "a"])]

/-- The expansion of the first contracted ending, unless nothing stands before it. -/
def expandContraction (lower : String) : Option (List String) :=
  aposVariants.findSome? fun (suffix, expansion) =>
    match stripSuffix suffix lower with
    | some stem => if stem.isEmpty then none else some [stem, expansion]
    | none => none

/-- The non-empty components between separators. -/
def components (separator : Char) (lower : String) : List String :=
  ((splitAt separator lower).map trim).filter (! ·.isEmpty)

def conformOne (word : String) : List String :=
  let lower := UnicodeCase.toLowercase (trim word)
  if lower.isEmpty then []
  else
    match (expandContraction lower).or (colloquialisms.lookup lower) with
    | some expansion => expansion
    | none =>
        if lower.toList.contains '-' then components '-' lower
        else if lower.toList.contains '_' then components '_' lower
        else [lower]

def conformWithMapping (words : List SrcWord) : List ConformedTok :=
  words.zipIdx.flatMap fun (word, idx) => (conformOne word.text).map fun text => ⟨text, idx⟩

end

end Batchalign.Compare
