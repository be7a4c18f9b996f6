import Batchalign.Library.Replacement
import Batchalign.Morphosyntax.Languages
import Batchalign.Morphosyntax.Render

/-!
# The handlers of the parts of speech

`render.py`: `handler` cleans the lemma, and each part of speech adds its features. A language is
a code, or `none` where the source passes none.
-/

namespace Batchalign.Morphosyntax

open PythonText

section Texts

/-- `str.replace`, of a text that is not empty. -/
def replaceText (old new text : String) : String :=
  String.ofList (Replacement.replace old.toList new.toList text.toList)

/-- `text[:1]`. -/
def firstChar (text : String) : String := String.ofList (text.toList.take 1)

end Texts

section Feats

def unpackMessage : String := "not enough values to unpack (expected 2, got 1)"

/-- `feat.split("=", 1)`, of which a padding value is empty. -/
def parseFeat (feat : String) : Except PythonError (String × String) :=
  match splitAt '=' feat with
  | key :: first :: rest =>
      let value := String.intercalate "=" (first :: rest)
      .ok (key, if value = "<PAD>" then "" else value)
  | _ => .error (.valueError unpackMessage)

/-- `parse_feats`. -/
def parseFeats : Option String → Except PythonError (List (String × String))
  | none => .ok []
  | some feats => do
      let entries ← (splitAt '|' feats).mapM parseFeat
      return entries.foldl (fun dict entry => dictSet entry.1 entry.2 dict) []

/-- `feats.get(key, default)`. -/
def featOr (feats : List (String × String)) (key default : String) : String :=
  (feats.lookup key).getD default

/-- `feat_list`. -/
def featList (feats : List String) : List String :=
  (feats.filter (· != "")).map (replaceText "," "")

/-- The feature, unless it is empty. -/
def feature (value : String) : List String := if value = "" then [] else [value]

/-- `person` with the fourth in the place of `0`. -/
def fourthPerson (person : String) : String := if person = "0" then "4" else person

end Feats

section Cleaning

variable [PythonText]

def remove (text : String) : List Char → List Char := Replacement.replace text.toList []

def dropFirst (mark : Char) : List Char → List Char
  | [] => []
  | char :: chars => if char = mark then chars else char :: chars

def dropLast (mark : Char) (chars : List Char) : List Char :=
  if chars.getLast? = some mark then chars.dropLast else chars

/-- What stands in front of a bar, stripped; a text without one stays as it is. -/
def beforeBar (chars : List Char) : List Char :=
  if '|' ∈ chars then (strip ((splitAt '|' (String.ofList chars)).headD "")).toList else chars

/-- The replacements of `handler` in their order. -/
def cleaningSteps : List (List Char → List Char) :=
  [remove "$", remove ".", dropFirst '-', dropLast '-', Replacement.replace ['-', '-'] ['-'],
    Replacement.replace ['-', '-'] ['-'], remove "<unk>", remove "<SOS>", remove ",", remove "'",
    remove "~", remove "/100", remove "/r", remove "(", remove "(", remove ")", beforeBar,
    remove "_", remove "+"]

def cleanMarks (target : String) : String :=
  String.ofList (cleaningSteps.foldl (fun chars step => step chars) target.toList)

/-- `re.sub(r"@\w$", "", target)`, where `$` also stands in front of a last line feed. -/
def dropForm (target : String) : String :=
  match target.toList.reverse with
  | '\n' :: char :: '@' :: rest =>
      if isWordChar char then String.ofList ('\n' :: rest).reverse else target
  | char :: '@' :: rest => if isWordChar char then String.ofList rest.reverse else target
  | _ => target

/-- The lemma, or the surface for a lemma that is a corner bracket, a quotation mark or empty. -/
def startText (word : NormalizedWord) : String :=
  let target := if strip word.lemmaText ∈ ["」", "「"] then word.text else word.lemmaText
  let target := if target = "\"" then word.text else target
  if target = "" then word.text else target

def openedText (word : NormalizedWord) : String :=
  replaceText "「" "" (replaceText "」" "" (startText word))

/-- A leading zero marks an unknown word. -/
def isUnknown (word : NormalizedWord) : Bool := (openedText word).toList.head? == some '0'

def baseText (word : NormalizedWord) : String :=
  let target := if isUnknown word then String.ofList (word.text.toList.drop 1) else openedText word
  if isIn "<SOS>" target then word.text else target

/-- The cleaned lemma, or the surface where the cleaned lemma is not to be used. -/
def stemText (word : NormalizedWord) : String :=
  let target := cleanMarks (baseText word)
  let target := if target = "door zogen" then word.text else target
  let target := replaceText "-" "–" target
  if isIn "“" target then word.text else target

/-- The part of speech with the stem, for Japanese by its table. -/
def formed (word : NormalizedWord) (lang : Option String) : String × String :=
  if lang = some "ja" then
    let (pos, target) := verbform (lower word.upos) (stemText word) word.text
    (pos, replaceText "," "cm" target)
  else (lower word.upos, stemText word)

def handler (word : NormalizedWord) (lang : Option String) :
    Except PythonError (String × String) := do
  -- `target[0]` of the text without corner brackets.
  let _ ← pyGet (openedText word).toList 0
  let (pos, target) := formed word lang
  return ((if isUnknown word then "0" else "") ++ pos, strip (dropForm target))

end Cleaning

section Handlers

variable [PythonText]

def handlerPron (word : NormalizedWord) (lang : Option String) :
    Except PythonError MorAnalysis := do
  let feats ← parseFeats word.feats
  let person := fourthPerson (featOr feats "Person" "1")
  let reflex := strip (featOr feats "Reflex" "")
  let reflex := if reflex = "Yes" then "reflx" else reflex
  let case := if lang = some "fr" then frenchCase word.text else featOr feats "Case" ""
  let numberString := firstChar (featOr feats "Number" "S") ++ person
  let numberString := if word.text ∈ ["that", "who"] then "" else numberString
  let (pos, lemmaText) ← handler word lang
  return ⟨pos, lemmaText,
    featList [featOr feats "PronType" "Int", replaceText "," "" case, reflex, numberString]⟩

def handlerDet (word : NormalizedWord) (lang : Option String) :
    Except PythonError MorAnalysis := do
  let feats ← parseFeats word.feats
  let number := featOr feats "Number" ""
  let default := if lang ≠ some "fr" then "" else if number = "Plur" then "" else "Masc"
  let gender := replaceText "," "" (featOr feats "Gender" default)
  let psor := firstChar (featOr feats "Number[psor]" "") ++ featOr feats "Person[psor]" ""
  let gender := if gender ∈ ["Com,Neut", "Com", ""] then "" else gender
  let (pos, lemmaText) ← handler word lang
  return ⟨pos, lemmaText,
    feature gender ++ featList [featOr feats "Definite" "Def"] ++
      featList [featOr feats "PronType" "", number, psor]⟩

def handlerAdj (word : NormalizedWord) (lang : Option String) :
    Except PythonError MorAnalysis := do
  let feats ← parseFeats word.feats
  let deg := featOr feats "Degree" "Pos"
  let case := replaceText "," "" (featOr feats "Case" "")
  let number := firstChar (featOr feats "Number" "S")
  let person := fourthPerson (featOr feats "Person" "1")
  let deg := if deg = "Pos" then "" else deg
  let (pos, lemmaText) ← handler word lang
  return ⟨pos, lemmaText, featList [deg, case, firstChar number ++ person]⟩

def handlerNoun (word : NormalizedWord) (lang : Option String) :
    Except PythonError MorAnalysis := do
  let feats ← parseFeats word.feats
  let gender := replaceText "," "" (featOr feats "Gender" "ComNeut")
  let number := featOr feats "Number" "Sing"
  let case := replaceText "," "" (featOr feats "Case" "")
  let type := featOr feats "PronType" ""
  let apm := if lang = some "fr" ∧ number = "Plur" ∧ isApmNoun word.text then "Apm" else ""
  let case := if word.deprel = "obj" ∧ strip case = "" then "Acc" else case
  let ger := if "ing".toList.isSuffixOf word.text.toList ∧ lang = some "en" then "Ger" else ""
  let gender := if gender ∈ ["Com,Neut", "Com", "ComNeut"] then "" else gender
  let number := if number = "Sing" then "" else number
  let (pos, lemmaText) ← handler word lang
  return ⟨pos, lemmaText,
    feature gender ++ feature number ++ featList [case, type] ++ feature ger ++ featList [apm]⟩

/-- The noun handler is called without the language. -/
def handlerPropn (word : NormalizedWord) : Except PythonError MorAnalysis := do
  let unit ← handlerNoun word none
  return { unit with pos := replaceText "noun" "propn" unit.pos }

/-- The surface is the uninflected form that the analysis takes for a third person. -/
def isUninflected (word : NormalizedWord) (lang : Option String)
    (verbForm tense number person : String) : Prop :=
  lang = some "en" ∧ word.upos = "VERB" ∧ verbForm = "Fin" ∧ tense = "Pres" ∧ number = "Sing" ∧
    person = "3" ∧ casefold word.text = casefold word.lemmaText

instance (word : NormalizedWord) (lang : Option String) (verbForm tense number person : String) :
    Decidable (isUninflected word lang verbForm tense number person) :=
  inferInstanceAs (Decidable (_ ∧ _))

def handlerVerb (word : NormalizedWord) (lang : Option String) :
    Except PythonError MorAnalysis := do
  let feats ← parseFeats word.feats
  let verbForm := replaceText "," "" (featOr feats "VerbForm" "Inf")
  let biyan := lower (featOr feats "HebBinyan" "")
  let existential := lower (featOr feats "HebExistential" "")
  let person := fourthPerson (featOr feats "Person" "")
  let number := featOr feats "Number" "Sing"
  let tense := featOr feats "Tense" ""
  let person := if isUninflected word lang verbForm tense number person then "" else person
  let irr :=
    if lang = some "en" ∧ tense = "Past" ∧ isIrregular word.lemmaText word.text then "Irr" else ""
  let (pos, lemmaText) ← handler word lang
  if isIn "sconj" pos then return ⟨pos, lemmaText, []⟩
  else if word.text = "ろ" then return ⟨pos, lemmaText, []⟩
  else if ! isIn "verb" pos && ! isIn "aux" pos then
    return ⟨pos, lemmaText, if word.text = "たり" then featList ["Inf", "S"] else []⟩
  else
    return ⟨pos, lemmaText,
      featList [verbForm, featOr feats "Aspect" "", featOr feats "Mood" "", tense,
        featOr feats "Polarity" "", featOr feats "Polite" "", biyan, existential,
        firstChar number ++ person, irr]⟩

/-- `HANDLERS`, but for punctuation. A part of speech without a handler has no features. -/
def posHandler (word : NormalizedWord) (lang : Option String) : Except PythonError MorAnalysis :=
  if word.upos = "PRON" then handlerPron word lang
  else if word.upos = "DET" then handlerDet word lang
  else if word.upos = "ADJ" then handlerAdj word lang
  else if word.upos = "NOUN" then handlerNoun word lang
  else if word.upos = "PROPN" then handlerPropn word
  else if word.upos = "AUX" ∨ word.upos = "VERB" then handlerVerb word lang
  else (handler word lang).map fun (pos, lemmaText) => ⟨pos, lemmaText, []⟩

@[reducible]
def posHandlers : MorHandlers := ⟨fun word lang => posHandler word (some lang)⟩

/-- `handle`, also without a language. -/
def handleWord (word : NormalizedWord) (lang : Option String) :
    Except PythonError (Option MorAnalysis) :=
  if word.lemmaText ∈ punctLemmas then .ok (handlerActualPunct word)
  else if word.upos ∈ ["PUNCT", "SYM"] then .ok (handlerPunct word)
  else (posHandler word lang).map some

theorem handle_posHandlers (word : NormalizedWord) (lang : String) :
    @handle _ posHandlers word lang = handleWord word (some lang) := rfl

end Handlers

end Batchalign.Morphosyntax
