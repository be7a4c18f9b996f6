import Batchalign.Alignment.Shim
import Batchalign.Morphosyntax.Workarounds

/-!
# The tokenizer postprocessor

`ud/tokenize.py`: what Stanza made of a line is put together again word by word, and the
contractions of some languages are split, marked or kept whole. The dictionary of
`adlist_postprocessor` is left out.
-/

namespace Batchalign.Morphosyntax

open PythonText

section Tokens

/-- A token of Stanza is a text, or a text with the mark of a multi-word token. -/
inductive StanzaToken where
  | str (text : String)
  | pair (text : String) (isMwt : Bool)
deriving DecidableEq, Repr

inductive TokenizerError where
  | align (error : Dp.PyError)
  | attributeError
  | indexError
  | valueError
deriving DecidableEq, Repr

def conform : StanzaToken → String
  | .str text => text
  | .pair text _ => text

def StanzaToken.isPair : StanzaToken → Bool
  | .str _ => false
  | .pair _ _ => true

def StanzaToken.isMwt : StanzaToken → Bool
  | .str _ => false
  | .pair _ isMwt => isMwt

def matchesWord (i : StanzaToken) (word : String) : Bool := conform i == word

def matchesIn (i : StanzaToken) (fragment : Char) : Bool := (conform i).toList.contains fragment

def hasApostrophe (text : String) : Bool :=
  text.toList.contains '\'' || text.toList.contains '’'

end Tokens

section Grouping

/-- A candidate with spaces loses its mark. -/
def splitCandidate (candidate : StanzaToken) : List StanzaToken :=
  match splitAt ' ' (conform candidate) with
  | [_] => [candidate]
  | fragments => fragments.map .str

/-- The characters that `strip` leaves, as texts. -/
def charKeys (text : String) : List String :=
  (text.toList.map fun char => strip (String.singleton char)).filter (· != "")

def targetsOf (tokenized : List StanzaToken) : List (Dp.PayloadTarget String ℕ) :=
  tokenized.zipIdx.flatMap fun (i, indx) => (charKeys (conform i)).map fun key => ⟨key, some indx⟩

def refsOf (splitPassage : List String) : List (Dp.ReferenceTarget String ℕ) :=
  splitPassage.zipIdx.flatMap fun (i, indx) => (charKeys i).map fun key => ⟨key, some indx⟩

/-- `align` sees from the first target that it is given targets. Without any, the references
count as plain keys, which it gives back as extras. -/
def sequencesOf (targets : List (Dp.PayloadTarget String ℕ))
    (refs : List (Dp.ReferenceTarget String ℕ)) : Dp.Sequences String ℕ :=
  match targets with
  | [] => .plain [] (refs.map Dp.ReferenceTarget.key)
  | first :: rest => .targets first rest refs

/-- `reference_payload` and `payload`, of which an extra has only the second. All targets and
references have got an index. -/
def payloadsOf : Dp.Record String ℕ → Except TokenizerError (ℕ × ℕ)
  | .isMatch _ (some payload) (some referencePayload) => .ok (referencePayload, payload)
  | _ => .error .attributeError

/-- `list(sorted(set(group)))`. -/
def sortedSet (group : List ℕ) : List ℕ := group.dedup.insertionSort (· ≤ ·)

def groupsOf (alignment : List (ℕ × ℕ)) : List (List ℕ) :=
  (alignment.splitBy fun x y => x.1 == y.1).map fun group => sortedSet (group.map Prod.snd)

/-- The tokens that stand for one word of the line. -/
def joinTokens (lang : List String) : List StanzaToken → List StanzaToken
  | [] => []
  | [token] => [token]
  | tokens =>
      let text := String.join (tokens.map conform)
      if lang.contains "it" && hasApostrophe text then tokens
      else [.pair text (tokens.any StanzaToken.isMwt)]

def tokenAt (tokenized : List StanzaToken) (j : ℕ) : Except TokenizerError StanzaToken :=
  match tokenized[j]? with
  | some token => .ok token
  | none => .error .indexError

/-- The loop over the groups. -/
def newToks (lang : List String) (tokenized : List StanzaToken) :
    List ℕ → List (List ℕ) → Except TokenizerError (List StanzaToken)
  | _, [] => .ok []
  | seen, i :: groups => do
      let i := i.filter fun x => x ∉ seen
      let tokens ← i.mapM (tokenAt tokenized)
      let rest ← newToks lang tokenized (seen ++ i) groups
      return joinTokens lang tokens ++ rest

end Grouping

section Branches

variable [PythonText]

/-- The words that `_ENGLISH_APOSTROPHELESS_MWT` matches. -/
def englishApostrophelessMwt : List String :=
  (["ai", "are", "ca", "could", "did", "does", "do", "had", "has", "have", "is", "must", "need",
    "sha", "should", "was", "were", "wo", "would"].map (· ++ "nt")) ++
  (["could", "might", "must", "should", "they", "we", "would", "you"].map (· ++ "ve")) ++
  ["cannot", "heres", "im", "ive", "thats", "theres", "theyre", "whats", "youre"]

def englishConventionalWords : List String :=
  ["cmon", "dunno", "gimme", "gonna", "gotta", "kinda", "lemme", "lotta", "outta", "sorta",
    "wanna", "whatnot"]

def nativeMwtSurfaces : List String :=
  legacyMwtRules.map LegacyMwtRule.surface ++
    compoundImperativeRules.map CompoundImperativeRule.surface ++
    componentRewriteRules.map ComponentRewriteRule.surface

def isConventional (lang : List String) (i : StanzaToken) : Bool :=
  i.isMwt && ((lang.contains "it" && casefold (conform i) == "dai") ||
    (lang.contains "en" && englishConventionalWords.contains (casefold (conform i))))

def isUnlistedEnglish (lang : List String) (i : StanzaToken) : Bool :=
  lang.contains "en" && i.isMwt && ! matchesIn i '\'' &&
    ! englishApostrophelessMwt.contains (casefold (conform i))

def isUnlistedItalian (lang : List String) (i : StanzaToken) : Bool :=
  lang.contains "it" && i.isMwt && ! matchesIn i '\'' && ! matchesIn i '’' &&
    ! nativeMwtSurfaces.contains (casefold (conform i))

def isElided (lang : List String) (i : StanzaToken) : Bool :=
  lang.contains "it" && i.isPair && hasApostrophe (conform i)

/-- `re.match(r"(\w')+\w+", text)`, which holds of a text when it does with one repetition: an
apostrophe is no `\w`. -/
def isClitic (text : String) : Bool :=
  match text.toList with
  | first :: second :: third :: _ => isWordChar first && second == '\'' && isWordChar third
  | _ => false

def elidedHeads : List String := ["jusqu", "puisqu", "quelqu", "aujourd"]

def headOf (text : String) : String := (splitAt '\'' text).headD ""

def splitClitics (text : String) : List StanzaToken :=
  let parts := splitAt '\'' text
  parts.dropLast.map (fun elem => .pair (elem ++ "'") false) ++
    [.pair (parts.getLastD "") false]

/-- The branches for one token: the result so far with what they append, and whether the next
token is passed over. -/
def step (lang : List String) (res : List StanzaToken) (i : StanzaToken) :
    Except TokenizerError (List StanzaToken × Bool) :=
  if isConventional lang i then .ok (res ++ [.str (conform i)], false)
  else if isUnlistedEnglish lang i then .ok (res ++ [.str (conform i)], false)
  else if isUnlistedItalian lang i then .ok (res ++ [.str (conform i)], false)
  else if isElided lang i then .ok (res ++ [i], false)
  else if lang.contains "it" && matchesWord i "i" && res.getLast?.any (matchesWord · "le") then
    .ok (res.dropLast ++ [.str "lei"], false)
  else if lang.contains "pt" && matchesWord i "d'água" then
    .ok (res ++ [.pair "d'água" true], false)
  else if lang.contains "fr" && matchesWord i "aujourd'hui" then
    .ok (res ++ [.str "aujourd'hui"], false)
  else if lang.contains "fr" && matchesWord i "aujourd'" then
    .ok (res ++ [.str "aujourd'hui"], true)
  else if lang.contains "fr" && matchesWord i "au" then
    .ok (res ++ [.pair (conform i) true], false)
  else if lang.contains "fr" && isClitic (conform i) then
    .ok (res ++ splitClitics (conform i), false)
  else if lang.contains "fr" && elidedHeads.contains (headOf (conform i)) then
    match splitAt '\'' (conform i) with
    | [before, after] => .ok (res ++ [.pair (before ++ "'") false, .pair after false], false)
    | _ => .error .valueError
  else if lang.contains "en" && matchesIn i '\'' &&
      ! (decide (1 < (splitAt '\'' (conform i)).length) && strip (headOf (conform i)) == "o") then
    .ok (res ++ [.pair (conform i) true], false)
  else if lang.contains "nl" && "'s".toList.isSuffixOf (conform i).toList then
    .ok (res ++ [.pair (conform i) false], false)
  else .ok (res ++ [i], false)

/-- The loop over the tokens, where `skip` says that a branch has passed over the next one. -/
def processFrom (lang : List String) :
    Bool → List StanzaToken → List StanzaToken → Except TokenizerError (List StanzaToken)
  | _, res, [] => .ok res
  | true, res, _ :: tokens => processFrom lang false res tokens
  | false, res, token :: tokens => do
      let (res, skip) ← step lang res token
      processFrom lang skip res tokens

open Batchalign.Alignment (Similarity)

variable (Threshold : Type) [Similarity Threshold]

/-- `str` leaves a text as it is. -/
def textKeys (coreBuilt : Bool) : Dp.Interpreter String := ⟨id, coreBuilt⟩

def alignChars (coreBuilt : Bool) (tokenized : List StanzaToken) (splitPassage : List String) :
    Except TokenizerError (List (ℕ × ℕ)) :=
  match Dp.align Threshold (textKeys coreBuilt)
    (sequencesOf (targetsOf tokenized) (refsOf splitPassage)) (some Dp.MatchFn.default) with
  | .ok records => records.mapM payloadsOf
  | .error error => .error (.align error)

def tokenizerProcessor (coreBuilt : Bool) (tokenized : List StanzaToken) (lang : List String)
    (sent : String) : Except TokenizerError (List StanzaToken) := do
  let tokenized := tokenized.flatMap splitCandidate
  let alignment ← alignChars Threshold coreBuilt tokenized (splitAt ' ' sent)
  let tokenized ← newToks lang tokenized [] (groupsOf alignment)
  processFrom lang false [] tokenized

end Branches

end Batchalign.Morphosyntax
