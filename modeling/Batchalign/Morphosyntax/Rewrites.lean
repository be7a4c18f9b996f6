import Batchalign.Morphosyntax.Workarounds

/-!
# Repairs and rewrites of an analysis

What `parse_sentence` does to the words and tokens of a sentence before it renders them: missing
fields are filled in, then come the passes for Italian or the one for English, and an analysis
without exactly one root is refused.
-/

namespace Batchalign.Morphosyntax

open PythonText

section Normalize

variable [PythonText]

/-- `_UD_POS`. -/
def udPos : List String :=
  ["ADJ", "ADP", "ADV", "AUX", "CCONJ", "DET", "INTJ", "NOUN", "NUM", "PART", "PRON", "PROPN",
    "PUNCT", "SCONJ", "SYM", "VERB", "X"]

/-- `_UD_DEPRELS`. -/
def udDeprels : List String :=
  ["acl", "advcl", "advmod", "amod", "appos", "aux", "case", "cc", "ccomp", "clf", "compound",
    "conj", "cop", "csubj", "dep", "det", "discourse", "dislocated", "expl", "fixed", "flat",
    "goeswith", "iobj", "list", "mark", "nmod", "nsubj", "nummod", "obj", "obl", "orphan",
    "parataxis", "punct", "reparandum", "root", "vocative", "xcomp"]

def textValue (value : Option String) : FieldValue := value.elim .missing .text

def numberValue (value : Option ℤ) : FieldValue := value.elim .missing .number

/-- The first word that is marked as root, else the first word. -/
def normalizedRootId (rawWords : List StanzaWord) : ℕ :=
  match rawWords.findIdx? fun word => word.head = some 0 ∧ word.deprel.map lower = some "root" with
  | some place => place + 1
  | none => if rawWords.isEmpty then 0 else 1

/-- A field after its repair, with the entry in the log if there was one. -/
abbrev Repaired (α : Type) := α × List AnalysisAnomaly

def repairText (index : ℕ) (word : StanzaWord) : Repaired String :=
  let text := word.text.getD ""
  if text = "" then
    (text, [⟨index, text, "text", textValue word.text, .text "", "missing lexical surface"⟩])
  else (text, [])

def repairLemma (index : ℕ) (text : String) (word : StanzaWord) : Repaired String :=
  let lemmaText := word.lemmaText.getD ""
  let bogusLemma := text ≠ "" ∧ text.toList.any isAlnum ∧ ¬ lemmaText.toList.any isAlnum
  if lemmaText = "" ∨ bogusLemma then
    (text, [⟨index, text, "lemma", textValue word.lemmaText, .text text,
      "missing lemma or punctuation-only lemma for a lexical surface"⟩])
  else (lemmaText, [])

def repairUpos (index : ℕ) (text : String) (word : StanzaWord) : Repaired String :=
  let upos := (word.upos.map upper).getD ""
  if upos ∈ udPos then (upos, [])
  else
    ("X", [⟨index, text, "upos", textValue word.upos, .text "X",
      "missing or unknown universal POS"⟩])

/-- A head out of range goes to the root. -/
def repairHead (count rootId index : ℕ) (text : String) (word : StanzaWord) : Repaired ℕ :=
  match word.head.filter fun (head : ℤ) => 0 ≤ head ∧ head ≤ count with
  | some head => (head.toNat, [])
  | none =>
      let head := if index = rootId then 0 else rootId
      (head, [⟨index, text, "head", numberValue word.head, .number head,
        "missing or out-of-range dependency head"⟩])

/-- The relation in front of its subtype, `partition(":")[0]`. -/
def deprelHead (deprel : String) : String := String.ofList (deprel.toList.takeWhile (· ≠ ':'))

def repairDeprel (index : ℕ) (text : String) (head : ℕ) (word : StanzaWord) : Repaired String :=
  let deprel := word.deprel.getD ""
  let normalizedDeprel := casefold deprel
  let truncatedIobj := normalizedDeprel = "iob"
  let deprelInvalid := deprel = "" ∨ ("<".isPrefixOf deprel ∧ deprel.endsWith ">") ∨
    (deprelHead normalizedDeprel ∉ udDeprels ∧ ¬ truncatedIobj)
  let expectedRoot := head = 0
  let jointInvariantInvalid := ¬ (normalizedDeprel = "root" ↔ expectedRoot)
  if deprelInvalid ∨ jointInvariantInvalid ∨ truncatedIobj then
    let replacement :=
      if expectedRoot then "root" else if truncatedIobj then "iobj" else "dep"
    (replacement, [⟨index, text, "deprel", textValue word.deprel, .text replacement,
      "missing, truncated, or non-UD relation; or head/root invariant violation"⟩])
  else (deprel, [])

def repairId (index : ℕ) (text : String) (word : StanzaWord) : Repaired ℕ :=
  match word.id with
  | some id => (id, [])
  | none =>
      (index, [⟨index, text, "id", .missing, .number index, "missing or non-scalar word id"⟩])

def normalizeWord (count rootId index : ℕ) (word : StanzaWord) : Repaired NormalizedWord :=
  let text := repairText index word
  let lemmaText := repairLemma index text.1 word
  let upos := repairUpos index text.1 word
  let head := repairHead count rootId index text.1 word
  let deprel := repairDeprel index text.1 head.1 word
  let id := repairId index text.1 word
  (⟨text.1, lemmaText.1, upos.1, word.feats, head.1, deprel.1, id.1⟩,
    text.2 ++ lemmaText.2 ++ upos.2 ++ head.2 ++ deprel.2 ++ id.2)

/-- `_normalize_words`. -/
def normalizeWords (rawWords : List StanzaWord) : Repaired (List NormalizedWord) :=
  let repaired := (rawWords.zipIdx 1).map fun (word, index) =>
    normalizeWord rawWords.length (normalizedRootId rawWords) index word
  (repaired.map Prod.fst, repaired.flatMap Prod.snd)

end Normalize

section Ids

/-- `old_to_new.get(id, id)`. -/
def mappedId (oldToNew : List (ℕ × ℕ)) (id : ℕ) : ℕ := (oldToNew.lookup id).getD id

/-- `by_id`, where the last word with an id counts. -/
def wordById (words : List NormalizedWord) (id : ℕ) : Option NormalizedWord :=
  words.reverse.find? (·.id = id)

/-- The word with its head and id taken to the new numbering. -/
def renumberWord (oldToNew : List (ℕ × ℕ)) (word : NormalizedWord) : NormalizedWord :=
  { word with head := mappedId oldToNew word.head, id := mappedId oldToNew word.id }

end Ids

section Elision

/-- The tokens that make up one elided word, with what remains of the tokens. -/
def takeElision (authoritative surface : String) (wordIds : List ℕ) :
    List Token → String × List ℕ × List Token
  | [] => (surface, wordIds, [])
  | token :: tokens =>
      if surface.length < authoritative.length then
        takeElision authoritative (surface ++ token.text) (wordIds ++ token.id) tokens
      else (surface, wordIds, token :: tokens)

/-- The grouping of the tokens under their words, or nothing where they do not fit. -/
def elisionGroups : List String → List Token → Option (List Token)
  | [], tokens => if tokens.isEmpty then some [] else none
  | _ :: _, [] => none
  | authoritative :: words, token :: tokens =>
      if token.text = authoritative then (elisionGroups words tokens).map (token :: ·)
      else if ¬ authoritative.toList.contains '\'' ∧ ¬ authoritative.toList.contains '’' then none
      else
        let (surface, wordIds, rest) := takeElision authoritative "" [] (token :: tokens)
        if surface ≠ authoritative ∨ wordIds = [] then none
        else (elisionGroups words rest).map (⟨authoritative, wordIds⟩ :: ·)

/-- `_group_italian_elision_tokens`. -/
def groupItalianElisionTokens (tokens : List Token) (authoritativeWords : List String) :
    List Token :=
  (elisionGroups authoritativeWords tokens).getD tokens

end Elision

/-- The words and tokens that a pass leaves, with its entries in the log. -/
structure Rewritten where
  words : List NormalizedWord
  tokens : List Token
  anomalies : List AnalysisAnomaly
deriving DecidableEq, Repr

section CompoundImperatives

variable [PythonText]

/-- The ids after the expansion, in the order of the words. -/
def compoundIds (oldId nextId : ℕ) : List (Option CompoundImperativeRule) → List (ℕ × ℕ)
  | [] => []
  | rule :: rules =>
      (oldId, nextId) ::
        compoundIds (oldId + 1) (nextId + 1 + rule.elim 0 (·.clitics.length)) rules

def imperativeFeats : String := "Mood=Imp|Number=Sing|Person=2|VerbForm=Fin"

def cliticWord (mainId : ℕ) (item : CliticRule × ℕ) : NormalizedWord :=
  let (clitic, offset) := item
  ⟨clitic.surface, clitic.lemmaText, "PRON", some clitic.feats, mainId, clitic.deprel,
    mainId + offset⟩

/-- What one word becomes: itself, or a verb with its clitics. -/
def expandImperative (oldToNew : List (ℕ × ℕ)) (oldId : ℕ) (word : NormalizedWord)
    (token : Token) (rule : Option CompoundImperativeRule) :
    List NormalizedWord × Token × List AnalysisAnomaly :=
  let mainId := mappedId oldToNew oldId
  let mappedHead := mappedId oldToNew word.head
  match rule with
  | none => ([{ word with head := mappedHead, id := mainId }], ⟨token.text, [mainId]⟩, [])
  | some rule =>
      let main := ⟨rule.stemSurface, rule.verbLemma, "VERB", some imperativeFeats, mappedHead,
        word.deprel, mainId⟩
      let clitics := (rule.clitics.zipIdx 1).map (cliticWord mainId)
      let spanIds := mainId :: clitics.map (·.id)
      (main :: clitics, ⟨rule.surface, spanIds⟩,
        [⟨oldId, word.text, s!"italian_defect_{rule.defect}",
          .fields [("upos", .inl word.upos), ("lemma", .inl word.lemmaText)],
          .fields [("upos", .inl "VERB"), ("lemma", .inl rule.verbLemma),
            ("chunks", .inr spanIds.length)], rule.retireWhen⟩])

/-- `_normalize_italian_compound_imperatives`. Only a sentence with one word for each token is
touched. -/
def normalizeItalianCompoundImperatives (words : List NormalizedWord) (tokens : List Token) :
    Rewritten :=
  let rules := words.map fun word => ruleFor word.text word.upos
  if tokens.map (·.id) ≠ (List.range' 1 words.length).map ([·]) ∨ rules.all Option.isNone then
    ⟨words, tokens, []⟩
  else
    let oldToNew := compoundIds 1 1 rules
    let expanded := ((words.zip (tokens.zip rules)).zipIdx 1).map
      fun ((word, token, rule), oldId) => expandImperative oldToNew oldId word token rule
    ⟨expanded.flatMap (·.1), expanded.map (·.2.1), expanded.flatMap (·.2.2)⟩

end CompoundImperatives

section LegacyMwts

variable [PythonText]

/-- The values of `feats.split("|")` as a set. -/
def featureSet (feats : Option String) : Finset String :=
  ((splitAt '|' (feats.getD ""))).toFinset

/-- Stanza's own analysis is the one of the rule. -/
def nativeMatches (rule : LegacyMwtRule) (native : List NormalizedWord) : Bool :=
  native.length = rule.components.length ∧
    ∀ item ∈ native.zip rule.components,
      item.1.text = item.2.surface ∧ item.1.lemmaText = item.2.lemmaText ∧
        item.1.upos = item.2.upos ∧ featureSet item.1.feats = featureSet item.2.feats

/-- A token with its words and the rule that rewrites it. -/
structure ItalianTokenRow where
  token : Token
  words : List NormalizedWord
  legacyRule : Option LegacyMwtRule
deriving DecidableEq, Repr

/-- Nothing for a token without words or with the id of no word. -/
def italianTokenRow (words : List NormalizedWord) (token : Token) : Option ItalianTokenRow :=
  match token.id.mapM (wordById words) with
  | none | some [] => none
  | some native =>
      some ⟨token, native, (legacyMwtRuleFor token.text).filter (! nativeMatches · native)⟩

def ItalianTokenRow.chunks (row : ItalianTokenRow) : ℕ :=
  row.legacyRule.elim row.token.id.length (·.components.length)

/-- The ids of the words of a row that stays are counted on, those of another all go to the
first new word. -/
def legacyIds (nextId : ℕ) (oldToNew : List (ℕ × ℕ)) : List ItalianTokenRow → List (ℕ × ℕ)
  | [] => oldToNew
  | row :: rows =>
      let entered := row.token.id.zipIdx.foldl (fun ids (oldId, offset) =>
        dictSet oldId (nextId + if row.legacyRule.isNone then offset else 0) ids) oldToNew
      legacyIds (nextId + row.chunks) entered rows

/-- The component of a rewritten token takes the place of the word that the rest of the sentence
sees, or hangs on the first component. -/
def componentWord (oldToNew : List (ℕ × ℕ)) (source : NormalizedWord) (mainId : ℕ)
    (item : LegacyMwtComponent × ℕ) : NormalizedWord :=
  let (component, offset) := item
  { text := component.surface
    lemmaText := component.lemmaText
    upos := component.upos
    feats := component.feats
    head := if offset = 0 then mappedId oldToNew source.head else mainId
    deprel := if offset = 0 then source.deprel else "fixed"
    id := mainId + offset }

def rewriteRow (oldToNew : List (ℕ × ℕ)) (row : ItalianTokenRow) :
    List NormalizedWord × Token × List AnalysisAnomaly :=
  match row.legacyRule, row.words with
  | some rule, first :: rest =>
      let source := ((first :: rest).find? (·.head ∉ row.token.id)).getD first
      let mainId := mappedId oldToNew (row.token.id.headD 0)
      let components := rule.components.zipIdx.map (componentWord oldToNew source mainId)
      (components, ⟨rule.surface, components.map (·.id)⟩,
        [⟨first.id, row.token.text, s!"italian_defect_{rule.defect}",
          .fields [("chunks", .inr row.token.id.length)],
          .fields [("legacy_surface", .inl rule.surface), ("chunks", .inr components.length)],
          rule.retireWhen⟩])
  | _, words =>
      (words.map (renumberWord oldToNew), ⟨row.token.text, row.token.id.map (mappedId oldToNew)⟩,
        [])

/-- `_normalize_italian_legacy_mwts`. -/
def normalizeItalianLegacyMwts (words : List NormalizedWord) (tokens : List Token) : Rewritten :=
  match tokens.mapM (italianTokenRow words) with
  | none => ⟨words, tokens, []⟩
  | some rows =>
      if rows.all (·.legacyRule.isNone) then ⟨words, tokens, []⟩
      else
        let oldToNew := legacyIds 1 [] rows
        let rewritten := rows.map (rewriteRow oldToNew)
        ⟨rewritten.flatMap (·.1), rewritten.map (·.2.1), rewritten.flatMap (·.2.2)⟩

end LegacyMwts

section MwtComponents

variable [PythonText]

/-- The rewrites by the id of the first word of their tokens. -/
def componentRewrites (wordIds : List ℕ) (tokens : List Token) :
    List (ℕ × Token × ComponentRewriteRule) :=
  tokens.foldl (fun rewrites token =>
    match componentRewriteRuleFor token.text, token.id with
    | some rule, first :: _ :: _ =>
        if first ∈ wordIds then dictSet first (token, rule) rewrites else rewrites
    | _, _ => rewrites) []

/-- `_normalize_italian_mwt_components`. The first word of a token gets the analysis of the
rule. -/
def normalizeItalianMwtComponents (words : List NormalizedWord) (tokens : List Token) :
    Repaired (List NormalizedWord) :=
  let rewrites := componentRewrites (words.map (·.id)) tokens
  let rewritten := words.map fun word =>
    match rewrites.lookup word.id with
    | none => (word, [])
    | some (token, rule) =>
        ({ word with
            lemmaText := rule.headLemma
            upos := rule.headUpos
            feats := some rule.headFeats },
          [(⟨word.id, token.text, s!"italian_defect_{rule.defect}",
            .fields [("upos", .inl word.upos), ("lemma", .inl word.lemmaText)],
            .fields [("upos", .inl rule.headUpos), ("lemma", .inl rule.headLemma)],
            rule.retireWhen⟩ : AnalysisAnomaly)])
  (rewritten.map Prod.fst, rewritten.flatMap Prod.snd)

end MwtComponents

section FalseMwts

variable [PythonText]

/-- A token whose words become one. -/
structure Collapse where
  ids : List ℕ
  token : Token
  rule : FalseMwtRule
deriving DecidableEq, Repr

/-- The collapses by the id of the first word of their tokens. -/
def falseMwtCollapses (words : List NormalizedWord) (tokens : List Token) :
    List (ℕ × Collapse) :=
  tokens.foldl (fun collapses token =>
    match falseMwtRuleFor token.text, token.id with
    | some rule, first :: second :: rest =>
        if ∀ id ∈ first :: second :: rest, (wordById words id).isSome then
          dictSet first ⟨first :: second :: rest, token, rule⟩ collapses
        else collapses
    | _, _ => collapses) []

/-- One id for the words of a collapse, and one for every other word. -/
def collapsedIds (collapses : List (ℕ × Collapse)) :
    ℕ → List (ℕ × ℕ) → List NormalizedWord → List (ℕ × ℕ)
  | _, oldToNew, [] => oldToNew
  | nextId, oldToNew, word :: words =>
      match (collapses.map (·.2.ids)).find? (word.id ∈ ·) with
      | none => collapsedIds collapses (nextId + 1) (dictSet word.id nextId oldToNew) words
      | some containing =>
          if (oldToNew.lookup (containing.headD 0)).isSome then
            collapsedIds collapses nextId oldToNew words
          else
            collapsedIds collapses (nextId + 1)
              (containing.foldl (fun ids oldId => dictSet oldId nextId ids) oldToNew) words

/-- Nothing for a word that goes into the one in front of it. -/
def collapseWord (words : List NormalizedWord) (collapses : List (ℕ × Collapse))
    (oldToNew : List (ℕ × ℕ)) (word : NormalizedWord) :
    Option (NormalizedWord × List AnalysisAnomaly) :=
  match collapses.lookup word.id with
  | some collapse =>
      let sample := (wordById words (collapse.ids.headD 0)).getD word
      some (⟨collapse.token.text, collapse.rule.lemmaText, collapse.rule.upos,
          some collapse.rule.feats, mappedId oldToNew sample.head, sample.deprel,
          mappedId oldToNew sample.id⟩,
        [⟨sample.id, collapse.token.text, s!"italian_defect_{collapse.rule.defect}",
          .fields [("chunks", .inr collapse.ids.length)],
          .fields [("upos", .inl collapse.rule.upos), ("lemma", .inl collapse.rule.lemmaText),
            ("chunks", .inr 1)], collapse.rule.retireWhen⟩])
  | none =>
      if word.id ∈ collapses.flatMap (·.2.ids) then none
      else some (renumberWord oldToNew word, [])

def collapseToken (collapses : List (ℕ × Collapse)) (oldToNew : List (ℕ × ℕ)) (token : Token) :
    Token :=
  match token.id with
  | [] => ⟨token.text, []⟩
  | first :: rest =>
      if (collapses.lookup first).isSome then ⟨token.text, [mappedId oldToNew first]⟩
      else
        -- `dict.fromkeys` keeps the first of equal ids.
        ⟨token.text, ((first :: rest).map (mappedId oldToNew)).reverse.dedup.reverse⟩

/-- `_normalize_italian_false_mwts`. -/
def normalizeItalianFalseMwts (words : List NormalizedWord) (tokens : List Token) : Rewritten :=
  let collapses := falseMwtCollapses words tokens
  if collapses.isEmpty then ⟨words, tokens, []⟩
  else
    let oldToNew := collapsedIds collapses 1 [] words
    let rewritten := words.filterMap (collapseWord words collapses oldToNew)
    ⟨rewritten.map Prod.fst, tokens.map (collapseToken collapses oldToNew),
      rewritten.flatMap Prod.snd⟩

end FalseMwts

section English

variable [PythonText]

/-- The words with head 0 that are labelled as root. -/
def rootWords (words : List NormalizedWord) : List NormalizedWord :=
  words.filter fun word => word.head = 0 ∧ lower word.deprel = "root"

def possessiveParts (words : List NormalizedWord) : List NormalizedWord :=
  words.filter fun word =>
    word.upos = "PART" ∧ word.lemmaText = "'s" ∧ lower word.deprel = "case"

def ingNouns (words : List NormalizedWord) : List NormalizedWord :=
  words.filter fun word =>
    word.upos = "NOUN" ∧ 4 ≤ word.text.length ∧ (lower word.text).endsWith "ing"

/-- What the rescue does to one word. -/
def rescueProgressive (part possessor verb oldRoot word : NormalizedWord) : NormalizedWord :=
  if word.id = part.id then
    { word with
      lemmaText := "be"
      upos := "AUX"
      feats := some "Mood=Ind|Number=Sing|Person=3|Tense=Pres|VerbForm=Fin"
      head := verb.id
      deprel := "aux" }
  else if word.id = possessor.id then { word with head := verb.id, deprel := "nsubj" }
  else if word.id = verb.id then
    { word with
      upos := "VERB", feats := some "Tense=Pres|VerbForm=Part", head := 0, deprel := "root" }
  else if word.id = oldRoot.id ∧ oldRoot.id ≠ verb.id then
    { word with head := verb.id, deprel := "obj" }
  else if oldRoot.id ≠ verb.id ∧ word.head = oldRoot.id ∧
      lower word.deprel ∈ ["cc", "punct", "discourse", "mark"] then
    { word with head := verb.id }
  else word

def progressiveAnomaly (part : NormalizedWord) : AnalysisAnomaly :=
  ⟨part.id, part.text, "english_copula_progressive",
    .fields [("upos", .inl part.upos), ("lemma", .inl part.lemmaText),
      ("deprel", .inl part.deprel)],
    .fields [("upos", .inl "AUX"), ("lemma", .inl "be"), ("deprel", .inl "aux")],
    "possessive-gerund analysis violates the finite-clause invariant"⟩

/-- `_apply_english_copula_progressive`. -/
def applyEnglishCopulaProgressive (words : List NormalizedWord) (tokens : List Token) :
    Repaired (List NormalizedWord) :=
  if words.any fun word => word.feats.any (isIn "VerbForm=Fin") then (words, [])
  else if ¬ tokens.any fun token => 1 < token.id.length then (words, [])
  else
    match possessiveParts words, ingNouns words with
    | [part], [verb] =>
        match wordById words part.head, rootWords words with
        | some possessor, [oldRoot] =>
            if possessor.upos ∈ ["NOUN", "PROPN"] ∧ lower possessor.deprel = "nmod:poss" then
              (words.map (rescueProgressive part possessor verb oldRoot),
                [progressiveAnomaly part])
            else (words, [])
        | _, _ => (words, [])
    | _, _ => (words, [])

end English

section Root

variable [PythonText]

/-- `_validate_root_structure`. -/
def validateRootStructure (words : List NormalizedWord) : Except PythonError Unit :=
  let roots := rootWords words
  if words ≠ [] ∧ roots.length ≠ 1 then
    .error (.valueError (s!"UD analysis must contain exactly one root; " ++
      s!"found {roots.length} across {words.length} words"))
  else .ok ()

/-- The passes of `parse_sentence` over the normalised words, by language. -/
def rewriteSentence (lang : String) (authoritativeWords : Option (List String))
    (words : List NormalizedWord) (tokens : List Token) : Rewritten :=
  if lang = "it" then
    let tokens := authoritativeWords.elim tokens (groupItalianElisionTokens tokens)
    let compound := normalizeItalianCompoundImperatives words tokens
    let legacy := normalizeItalianLegacyMwts compound.words compound.tokens
    let components := normalizeItalianMwtComponents legacy.words legacy.tokens
    let collapsed := normalizeItalianFalseMwts components.1 legacy.tokens
    ⟨collapsed.words, collapsed.tokens,
      compound.anomalies ++ legacy.anomalies ++ components.2 ++ collapsed.anomalies⟩
  else if lang = "en" then
    let rescued := applyEnglishCopulaProgressive words tokens
    ⟨rescued.1, tokens, rescued.2⟩
  else ⟨words, tokens, []⟩

end Root

end Batchalign.Morphosyntax
