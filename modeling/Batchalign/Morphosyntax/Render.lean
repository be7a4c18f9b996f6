import Batchalign.Morphosyntax.Rewrites
import Batchalign.Runners.Morphosyntax

/-!
# Rendering an analysis

`parse_sentence` of `render.py` and `_analysis_to_output` of `stanza.py`. Every word with a unit
gets an index, counted without the words that have none, and the heads are taken to these
indices. The units are then grouped into words of the main tier, and the groups written out.
-/

namespace Batchalign.Morphosyntax

open PythonText

section Units

/-- The part of speech, the lemma and the features of a unit. -/
structure MorAnalysis where
  pos : String
  lemmaText : String
  features : List String
deriving DecidableEq, Repr

/-- The handlers of the parts of speech other than punctuation. They give every word a unit. -/
class MorHandlers where
  handler : NormalizedWord → String → Except PythonError MorAnalysis

variable [PythonText]

/-- `_is_lexical_surface`. -/
def isLexicalSurface (text : String) : Bool :=
  text.toList.all (fun char => isWordMaterial char || ['\'', '’', '-', '_'].contains char) &&
    text.toList.any isWordMaterial

/-- `handler__actual_PUNCT`. A terminator is no `%mor` word. -/
def handlerActualPunct (word : NormalizedWord) : Option MorAnalysis :=
  if word.lemmaText = "," ∨ word.lemmaText = "$," then some ⟨"cm", "cm", []⟩
  else if word.lemmaText ∈ [".", "!", "?"] then none
  else if isIn word.text "‡" then some ⟨"end", "end", []⟩
  else if isIn word.text "„" then some ⟨"end", "end", []⟩
  else none

def punctLemmas : List String := [".", "!", "?", ",", "$,"]

/-- `handler__PUNCT`. -/
def handlerPunct (word : NormalizedWord) : Option MorAnalysis :=
  if word.lemmaText ∈ punctLemmas then handlerActualPunct word
  else if word.text ∈ ["„", "‡"] then handlerActualPunct word
  else if word.text = "da" then some ⟨"noun", "da", []⟩
  else if word.text = "哎呀" then some ⟨"punct", "哎呀", []⟩
  else if isLexicalSurface word.text then
    if word.text = "もん" then some ⟨"part", word.text, []⟩
    else if word.text = "," then some ⟨"cm", "cm", []⟩
    else some ⟨"x", word.text, []⟩
  else none

variable [MorHandlers]

/-- `handle`. -/
def handle (word : NormalizedWord) (lang : String) : Except PythonError (Option MorAnalysis) :=
  if word.lemmaText ∈ punctLemmas then .ok (handlerActualPunct word)
  else if word.upos ∈ ["PUNCT", "SYM"] then .ok (handlerPunct word)
  else (MorHandlers.handler word lang).map some

end Units

section Auxiliaries

/-- Where a token has a word joined to the one in front: so far from its first word, or behind
its last one. -/
inductive JoinSite where
  | first (offset : ℤ)
  | behind
deriving DecidableEq, Repr

/-- The sites by the text of the token and of the one in front of it. -/
def joinSites (lang text : String) (previous : Option String) : List JoinSite :=
  (if text.toList.head? = some '-' then [.first (-1)] else []) ++
    let text := strip text
    if text.toList.head? = some '_' then
      [.first (-1)] ++ if lang = "fr" ∧ text = "_l'" then [.first 0] else []
    else if text.toList.head? = some '~' then [.first (-1)]
    else if lang = "it" ∧ (lastChars 3 text = "ll'" ∨
        text ∈ ["gliel'", "d'", "c’", "c'", "qual'"]) then [.behind]
    else if lang = "fr" ∧ text ∈ ["jusqu'", "puisqu'", "quelqu'"] then [.behind]
    else if lang = "fr" ∧ text = "aujourd" then [.first 1]
    else if lang = "fr" ∧ text = "aujourd'" then [.behind]
    else if lang = "fr" ∧ text = "au" ∧ previous.any (· ≠ "jusqu'") then [.first 0]
    else if lang = "fr" ∧ text.length = 2 ∧ lastChars 1 text = "'" then [.behind]
    else []

/-- The position of a join, counted from 0 where the ids count from 1. -/
def sitePosition (ids : List ℕ) : JoinSite → Except PythonError ℤ
  | .first offset => ids.head?.elim (.error .indexError) fun id => .ok (id + offset)
  | .behind => ids.getLast?.elim (.error .indexError) fun id => .ok id

/-- A token with no text is an error. -/
def tokenAuxiliaries (lang : String) (token : Token) (previous : Option String) :
    Except PythonError (List ℤ) :=
  if strip token.text = "" then .error .indexError
  else (joinSites lang token.text previous).mapM (sitePosition token.id)

/-- The tokens, each with the text of the one in front. -/
def withPrevious (tokens : List Token) : List (Token × Option String) :=
  tokens.zip (none :: tokens.map fun token => some token.text)

/-- `auxiliaries`. -/
def auxiliariesOf (lang : String) (tokens : List Token) : Except PythonError (List ℤ) := do
  let joins ← (withPrevious tokens).mapM fun (token, previous) =>
    tokenAuxiliaries lang token previous
  return joins.flatten

/-- `mwts`. -/
def mwtsOf (tokens : List Token) : List (List ℕ) :=
  (tokens.map (·.id)).filter (1 < ·.length)

end Auxiliaries

section Words

variable [PythonText] [MorHandlers]

/-- The arrays of the loop over the words. -/
structure LoopState where
  analyses : List (Option MorAnalysis)
  surfaces : List String
  graTmp : List (ℕ × ℕ × String)
  actualIndicies : List ℕ
  numSkipped : ℕ
  root : ℕ
  specialForms : List (String × String)
  specialFormIds : List ℕ
deriving DecidableEq, Repr

def LoopState.initial (specialForms : List (String × String)) : LoopState :=
  ⟨[], [], [], [], 0, 0, specialForms, []⟩

def LoopState.skip (state : LoopState) (surface : String) : LoopState :=
  { state with
    analyses := state.analyses ++ [none]
    surfaces := state.surfaces ++ [surface]
    numSkipped := state.numSkipped + 1
    actualIndicies := state.actualIndicies ++ [state.root] }

/-- `[stem, tag]` of a special form, the unit of its place-holder. -/
def specialUnit (form : String × String) : Except PythonError MorAnalysis :=
  match form.2.toList with
  | [] => .error .indexError
  | 's' :: _ => .ok ⟨"L2", "xxx", []⟩
  | _ => .ok ⟨strip form.2, (strip form.1).replace "," "cm", []⟩

/-- The relation as `%gra` writes it. -/
def graLabel (deprel : String) : String :=
  String.ofList (((upper deprel).toList.map fun char => if char = ':' then '-' else char).filter
    fun char => char ≠ '<' ∧ char ≠ '>')

def LoopState.keep (state : LoopState) (index : ℕ) (word : NormalizedWord) (unit : MorAnalysis) :
    LoopState :=
  { state with
    analyses := state.analyses ++ [some unit]
    surfaces := state.surfaces ++ [word.text]
    graTmp := state.graTmp ++ [(index, word.head, graLabel word.deprel)]
    actualIndicies := state.actualIndicies ++ [index]
    root := if upper word.deprel = "ROOT" then index else state.root }

def sentinels : List String := ["xbxxx", "‡", "„"]

/-- The unit of a word that is not skipped, which takes a special form for a place-holder. -/
def resolveUnit (state : LoopState) (word : NormalizedWord) (unit : Option MorAnalysis) :
    Except PythonError (LoopState × MorAnalysis) :=
  let text := strip word.text
  let unit :=
    if text = "‡" then some ⟨"cm", "begin", []⟩
    else if text = "„" then some ⟨"cm", "end", []⟩
    else unit
  if isIn "xbxxx" text then
    match state.specialForms with
    | [] => .error .indexError
    | form :: forms => do
        let unit ← specialUnit form
        return ({ state with
          specialForms := forms, specialFormIds := state.specialFormIds ++ [word.id] }, unit)
  else
    match unit with
    | some unit => .ok (state, unit)
    -- Not reached: a word without a unit is one of the three sentinels here.
    | none => .error .indexError

/-- One round of the loop, for the word at this position. -/
def wordStep (lang : String) (state : LoopState) (item : NormalizedWord × ℕ) :
    Except PythonError LoopState :=
  let (word, indx) := item
  if word.text = "" then .ok (state.skip "")
  else do
    let unit ← handle word lang
    if strip word.text = "0" then return state.skip word.text
    else if unit.isSome ∨ strip word.text ∈ sentinels then
      let (resolved, unit) ← resolveUnit state word unit
      return resolved.keep (indx + 1 - state.numSkipped) word unit
    else return state.skip word.text

/-- `chunk_gra`, the relations by their index. -/
def chunkGra (state : LoopState) : Except PythonError (List (ℕ × ℕ × String)) := do
  let resolved ← state.graTmp.mapM fun (index, rawHead, deprel) => do
    let deprel := if index ∈ state.specialFormIds ∧ rawHead ≠ 0 then "FLAT" else deprel
    let head ← if rawHead = 0 then pure 0 else pyGet state.actualIndicies ((rawHead : ℤ) - 1)
    return (index, head, deprel)
  return resolved.foldl (fun relations relation => dictSet relation.1 relation.2 relations) []

end Words

section Grouping

/-- Positions of words, or nothing where a group went into another one. -/
abbrev Groups := List (Option (List ℕ))

def initialGroups (analyses : List (Option MorAnalysis)) : Groups :=
  analyses.zipIdx.map fun (analysis, position) => analysis.map fun _ => [position]

/-- `while groups[aux - 1] is None: aux -= 1`. The fuel counts the places from `aux - 1` down to
the last one that a negative index still reaches. -/
def nearestGroup (groups : Groups) : ℕ → ℤ → Except PythonError ℤ
  | 0, _ => .error .indexError
  | fuel + 1, aux => do
      match ← pyGet groups (aux - 1) with
      | some _ => return aux - 1
      | none => nearestGroup groups fuel (aux - 1)

/-- One round of the loop over the auxiliaries: the group at `aux` goes to the end of the nearest
one in front. -/
def joinAuxiliary (groups : Groups) (aux : ℤ) : Except PythonError Groups := do
  let target ← nearestGroup groups (aux + groups.length).toNat aux
  match ← pyGet groups aux, ← pyGet groups target with
  | some joined, some front =>
      let groups ← pySet groups target (some (front ++ joined))
      pySet groups aux none
  | _, _ => return groups

/-- One round of the loop over the multi-word tokens: all groups from the first to the last word
become one. -/
def mergeMwt (groups : Groups) (mwt : List ℕ) : Except PythonError Groups := do
  let start := mwt.headD 0
  let stop := mwt.getLastD 0
  let places := (List.range (stop + 1 - start)).map fun (offset : ℕ) => (start : ℤ) - 1 + offset
  let merged ← places.mapM (pyGet groups)
  let cleared ← places.foldlM (fun groups place => pySet groups place none) groups
  pySet cleared ((start : ℤ) - 1) (some (merged.filterMap id).flatten)

/-- The grouping of the words. -/
def groupWords (analyses : List (Option MorAnalysis)) (auxiliaries : List ℤ)
    (mwts : List (List ℕ)) : Except PythonError Groups := do
  let joined ← auxiliaries.foldlM joinAuxiliary (initialGroups analyses)
  mwts.foldlM mergeMwt joined

end Grouping

section Emission

/-- A unit with its relation. -/
structure MorUnit where
  pos : String
  lemmaText : String
  features : List String
  index : ℕ
  head : ℕ
  deprel : String
deriving DecidableEq, Repr

structure MorWordGroup where
  text : String
  units : List MorUnit
deriving DecidableEq, Repr

structure SentenceAnalysis where
  words : List MorWordGroup
  terminator : Option (ℕ × ℕ × String)
  anomalies : List AnalysisAnomaly
deriving DecidableEq, Repr

/-- The unit at a position, with its surface. -/
def materializeUnit (state : LoopState) (relations : List (ℕ × ℕ × String)) (position : ℕ) :
    Option (MorUnit × String) := do
  let unit ← (state.analyses[position]?).join
  let index ← state.actualIndicies[position]?
  let surface ← state.surfaces[position]?
  let (head, deprel) := (relations.lookup index).getD (state.root, "DEP")
  return (⟨unit.pos, unit.lemmaText, unit.features, index, head, deprel⟩, surface)

def materializeGroup (state : LoopState) (relations : List (ℕ × ℕ × String))
    (group : Option (List ℕ)) : Option MorWordGroup :=
  let chunks := (group.getD []).filterMap (materializeUnit state relations)
  if chunks.isEmpty then none
  else some ⟨String.join (chunks.map Prod.snd), chunks.map Prod.fst⟩

variable [PythonText] [MorHandlers]

/-- The words and the terminator of the rewritten sentence. -/
def renderWords (lang : String) (specialForms : List (String × String))
    (words : List NormalizedWord) (tokens : List Token) :
    Except PythonError (List MorWordGroup × (ℕ × ℕ × String)) := do
  let auxiliaries ← auxiliariesOf lang tokens
  let state ← words.zipIdx.foldlM (wordStep lang) (LoopState.initial specialForms)
  let relations ← chunkGra state
  let groups ← groupWords state.analyses auxiliaries (mwtsOf tokens)
  return (groups.filterMap (materializeGroup state relations),
    (words.length + 1 - state.numSkipped, state.root, "PUNCT"))

/-- `parse_sentence`. -/
def parseSentence (sentence : StanzaSentence) (specialForms : List (String × String))
    (lang : String) (authoritativeWords : Option (List String)) :
    Except PythonError SentenceAnalysis := do
  let normalized := normalizeWords sentence.words
  let rewritten := rewriteSentence lang authoritativeWords normalized.1 sentence.tokens
  let anomalies := normalized.2 ++ rewritten.anomalies
  validateRootStructure rewritten.words
  let (words, terminator) ← renderWords lang specialForms rewritten.words rewritten.tokens
  return if words.isEmpty then ⟨[], none, anomalies⟩ else ⟨words, some terminator, anomalies⟩

end Emission

section Output

open Runners

variable [PythonText]

def outputUnit (unit : MorUnit) : MorphosyntaxUnit where
  pos := unit.pos
  lemmaText := unit.lemmaText
  features := unit.features
  index := unit.index
  head := if lower unit.deprel = "root" then 0 else unit.head
  deprel := unit.deprel

def outputTerminator (terminator : ℕ × ℕ × String) : GraTerminator where
  index := terminator.1
  head := if lower terminator.2.2 = "root" then 0 else terminator.2.1
  deprel := terminator.2.2

/-- `_analysis_to_output`. -/
def analysisToOutput (item : MorphosyntaxInput) (analysis : SentenceAnalysis) :
    MorphosyntaxOutput where
  sourceId := item.sourceId
  utteranceId := item.utteranceId
  tokens := analysis.words.map fun word => ⟨word.text, word.units.map outputUnit⟩
  terminator :=
    if analysis.words.isEmpty then none else analysis.terminator.map outputTerminator

end Output

end Batchalign.Morphosyntax
