import Batchalign.Morphosyntax.Basic

/-!
# The closed tables for Italian

`it/workarounds.py`. A rule names a surface that Stanza analyses wrongly and the analysis to
put in its place. The tables are looked up by the case-folded surface.
-/

namespace Batchalign.Morphosyntax

section Rules

structure CliticRule where
  surface : String
  lemmaText : String
  feats : String
  deprel : String
deriving DecidableEq, Repr

structure CompoundImperativeRule where
  defect : ℕ
  surface : String
  stemSurface : String
  verbLemma : String
  clitics : List CliticRule
  retireWhen : String
  observedUpos : List String
deriving DecidableEq, Repr

/-- One ordinary word that is expanded into several. -/
structure FalseMwtRule where
  defect : ℕ
  surface : String
  upos : String
  lemmaText : String
  feats : String
  retireWhen : String
deriving DecidableEq, Repr

structure ComponentRewriteRule where
  defect : ℕ
  surface : String
  headUpos : String
  headLemma : String
  headFeats : String
  retireWhen : String
deriving DecidableEq, Repr

structure LegacyMwtComponent where
  surface : String
  upos : String
  lemmaText : String
  feats : Option String
deriving DecidableEq, Repr

/-- A multi-word token that keeps the analysis of the older corpora. -/
structure LegacyMwtRule where
  defect : ℕ
  surface : String
  components : List LegacyMwtComponent
  retireWhen : String
deriving DecidableEq, Repr

end Rules

section Tables

def cliticMe : CliticRule := ⟨"me", "me", "Number=Sing|Person=1|PronType=Prs", "iobj"⟩
def cliticCi : CliticRule := ⟨"ci", "ci", "Number=Plur|Person=1|PronType=Prs", "obj"⟩
def cliticSi : CliticRule := ⟨"si", "si", "Number=Sing|Person=3|PronType=Prs", "obj"⟩
def cliticLa : CliticRule :=
  ⟨"la", "la", "Gender=Fem|Number=Sing|Person=3|PronType=Prs", "obj"⟩
def cliticLo : CliticRule :=
  ⟨"lo", "lo", "Gender=Masc|Number=Sing|Person=3|PronType=Prs", "obj"⟩
def cliticLi : CliticRule :=
  ⟨"li", "li", "Gender=Masc|Number=Plur|Person=3|PronType=Prs", "obj"⟩
def cliticLe : CliticRule :=
  ⟨"le", "le", "Gender=Fem|Number=Plur|Person=3|PronType=Prs", "obj"⟩

def reprobe : String :=
  "retire only after a pinned Italian Stanza probe returns a correct MWT expansion"

def legacyReprobe : String :=
  "retire only when the pinned Stanza model reproduces the established " ++
    "Italian TalkBank morphology on the real legacy fixture"

def mascSingArt : String := "Definite=Def|Gender=Masc|Number=Sing|PronType=Art"
def femSingArt : String := "Definite=Def|Gender=Fem|Number=Sing|PronType=Art"
def mascPlurArt : String := "Definite=Def|Gender=Masc|Number=Plur|PronType=Art"
def femPlurArt : String := "Definite=Def|Gender=Fem|Number=Plur|PronType=Art"

def adp (surface lemmaText : String) : LegacyMwtComponent := ⟨surface, "ADP", lemmaText, none⟩

def det (surface feats : String) : LegacyMwtComponent := ⟨surface, "DET", "il", some feats⟩

def verb (surface lemmaText feats : String) : LegacyMwtComponent :=
  ⟨surface, "VERB", lemmaText, some feats⟩

def pron (surface lemmaText feats : String) : LegacyMwtComponent :=
  ⟨surface, "PRON", lemmaText, some feats⟩

def infinitiveClitic (defect : ℕ) (surface lemmaText : String) (clitic : CliticRule) :
    LegacyMwtRule where
  defect := defect
  surface := surface
  components :=
    [verb lemmaText lemmaText "VerbForm=Inf", pron clitic.surface clitic.lemmaText clitic.feats]
  retireWhen := legacyReprobe

def imperativeClitic (defect : ℕ) (surface stemSurface lemmaText : String)
    (clitic : CliticRule) : LegacyMwtRule where
  defect := defect
  surface := surface
  components :=
    [verb stemSurface lemmaText "Mood=Imp|Number=Sing|Person=2|Tense=Pres|VerbForm=Fin",
      pron clitic.surface clitic.lemmaText clitic.feats]
  retireWhen := legacyReprobe

def articulated (defect : ℕ) (surface preposition article feats : String) : LegacyMwtRule where
  defect := defect
  surface := surface
  components := [adp preposition preposition, det article feats]
  retireWhen := legacyReprobe

def articulatedPrepositionRules : List LegacyMwtRule :=
  [articulated 14 "nel" "in" "il" mascSingArt,
    articulated 14 "del" "di" "il" mascSingArt,
    articulated 14 "sulla" "su" "la" femSingArt,
    articulated 14 "dei" "di" "i" mascPlurArt,
    articulated 14 "alla" "a" "la" femSingArt,
    ⟨14, "della", [⟨"della", "DET", "il", some mascSingArt⟩], legacyReprobe⟩,
    articulated 14 "al" "a" "il" mascSingArt,
    articulated 14 "col" "con" "il" mascSingArt,
    articulated 14 "allo" "a" "lo" mascSingArt,
    articulated 14 "sul" "su" "il" mascSingArt,
    articulated 14 "ai" "a" "i" mascPlurArt]

def commonArticulatedPrepositionRules : List LegacyMwtRule :=
  [articulated 16 "agli" "a" "gli" mascPlurArt,
    articulated 16 "alle" "a" "le" femPlurArt,
    articulated 16 "dello" "di" "lo" mascSingArt,
    articulated 16 "degli" "di" "gli" mascPlurArt,
    articulated 16 "delle" "di" "le" femPlurArt,
    articulated 16 "dal" "da" "il" mascSingArt,
    articulated 16 "dallo" "da" "lo" mascSingArt,
    articulated 16 "dalla" "da" "la" femSingArt,
    articulated 16 "dagli" "da" "gli" mascPlurArt,
    articulated 16 "dalle" "da" "le" femPlurArt,
    articulated 16 "nello" "in" "lo" mascSingArt,
    articulated 16 "nella" "in" "la" femSingArt,
    articulated 16 "nei" "in" "i" mascPlurArt,
    articulated 16 "negli" "in" "gli" mascPlurArt,
    articulated 16 "nelle" "in" "le" femPlurArt,
    articulated 16 "sullo" "su" "lo" mascSingArt,
    articulated 16 "sui" "su" "i" mascPlurArt,
    articulated 16 "sugli" "su" "gli" mascPlurArt,
    articulated 16 "sulle" "su" "le" femPlurArt]

def reportedLegacyCliticRules : List LegacyMwtRule :=
  [infinitiveClitic 14 "alzarci" "alzare" cliticCi,
    ⟨14, "eccolo",
      [⟨"ecco", "ADV", "ecco", none⟩,
        pron "lo" "lo" "Gender=Masc|Number=Sing|Person=3|PronType=Prs"], legacyReprobe⟩,
    ⟨14, "eccola",
      [⟨"ecco", "ADV", "ecco", none⟩,
        pron "la" "la" "Gender=Fem|Number=Sing|Person=3|PronType=Prs"], legacyReprobe⟩,
    infinitiveClitic 14 "sporcarsi" "sporcare" cliticSi,
    infinitiveClitic 14 "vederla" "vedere" cliticLa,
    imperativeClitic 14 "guardalo" "guarda" "guardare" cliticLo]

def commonInfinitiveCliticRules : List LegacyMwtRule :=
  [infinitiveClitic 15 "alzarsi" "alzare" cliticSi,
    infinitiveClitic 15 "lavarsi" "lavare" cliticSi,
    infinitiveClitic 15 "vestirsi" "vestire" cliticSi,
    infinitiveClitic 15 "sedersi" "sedere" cliticSi,
    infinitiveClitic 15 "mettersi" "mettere" cliticSi,
    infinitiveClitic 15 "chiamarsi" "chiamare" cliticSi,
    infinitiveClitic 15 "svegliarsi" "svegliare" cliticSi,
    infinitiveClitic 15 "vederlo" "vedere" cliticLo,
    infinitiveClitic 15 "prenderlo" "prendere" cliticLo,
    infinitiveClitic 15 "prenderla" "prendere" cliticLa,
    infinitiveClitic 15 "farlo" "fare" cliticLo,
    infinitiveClitic 15 "farla" "fare" cliticLa,
    infinitiveClitic 15 "dirlo" "dire" cliticLo,
    infinitiveClitic 15 "aprirlo" "aprire" cliticLo,
    infinitiveClitic 15 "chiuderlo" "chiudere" cliticLo,
    infinitiveClitic 15 "mangiarlo" "mangiare" cliticLo,
    infinitiveClitic 15 "berlo" "bere" cliticLo,
    infinitiveClitic 15 "portarlo" "portare" cliticLo,
    infinitiveClitic 15 "portarla" "portare" cliticLa]

def commonImperativeCliticRules : List LegacyMwtRule :=
  [imperativeClitic 15 "guardala" "guarda" "guardare" cliticLa,
    imperativeClitic 15 "guardali" "guarda" "guardare" cliticLi,
    imperativeClitic 15 "guardale" "guarda" "guardare" cliticLe,
    imperativeClitic 15 "mettilo" "metti" "mettere" cliticLo,
    imperativeClitic 15 "mettila" "metti" "mettere" cliticLa,
    imperativeClitic 15 "portalo" "porta" "portare" cliticLo,
    imperativeClitic 15 "portala" "porta" "portare" cliticLa,
    imperativeClitic 15 "lascialo" "lascia" "lasciare" cliticLo,
    imperativeClitic 15 "lasciala" "lascia" "lasciare" cliticLa,
    imperativeClitic 15 "chiudilo" "chiudi" "chiudere" cliticLo,
    imperativeClitic 15 "chiudila" "chiudi" "chiudere" cliticLa,
    imperativeClitic 15 "mangialo" "mangia" "mangiare" cliticLo,
    imperativeClitic 15 "mangiala" "mangia" "mangiare" cliticLa,
    imperativeClitic 15 "bevilo" "bevi" "bere" cliticLo,
    imperativeClitic 15 "bevila" "bevi" "bere" cliticLa,
    imperativeClitic 15 "leggilo" "leggi" "leggere" cliticLo]

/-- `_LEGACY_MWT_RULES`. No surface comes twice, in any of the tables. -/
def legacyMwtRules : List LegacyMwtRule :=
  articulatedPrepositionRules ++ commonArticulatedPrepositionRules ++ reportedLegacyCliticRules ++
    commonInfinitiveCliticRules ++ commonImperativeCliticRules

def compoundImperative (defect : ℕ) (surface stemSurface verbLemma : String)
    (clitics : List CliticRule) : CompoundImperativeRule where
  defect := defect
  surface := surface
  stemSurface := stemSurface
  verbLemma := verbLemma
  clitics := clitics
  retireWhen := reprobe
  observedUpos := ["ADJ", "NOUN", "VERB"]

def compoundImperativeRules : List CompoundImperativeRule :=
  [compoundImperative 8 "dammela" "da" "dare" [cliticMe, cliticLa],
    compoundImperative 8 "dammelo" "da" "dare" [cliticMe, cliticLo],
    compoundImperative 8 "prendilo" "prendi" "prendere" [cliticLo],
    compoundImperative 8 "prendila" "prendi" "prendere" [cliticLa],
    compoundImperative 8 "prendili" "prendi" "prendere" [cliticLi],
    compoundImperative 8 "prendile" "prendi" "prendere" [cliticLe],
    compoundImperative 8 "aprila" "apri" "aprire" [cliticLa],
    compoundImperative 8 "aprili" "apri" "aprire" [cliticLi],
    compoundImperative 8 "finila" "fini" "finire" [cliticLa],
    compoundImperative 12 "aprilo" "apri" "aprire" [cliticLo],
    compoundImperative 13 "leggila" "leggi" "leggere" [cliticLa]]

def falseMwtRules : List FalseMwtRule :=
  [⟨6, "parla", "VERB", "parlare", "Mood=Ind|Number=Sing|Person=3|Tense=Pres|VerbForm=Fin",
      reprobe⟩,
    ⟨6, "arancione", "NOUN", "arancione", "Gender=Masc|Number=Sing", reprobe⟩,
    ⟨6, "piccolo", "ADJ", "piccolo", "Gender=Masc|Number=Sing", reprobe⟩,
    ⟨6, "gomitolo", "NOUN", "gomitolo", "Gender=Masc|Number=Sing", reprobe⟩,
    ⟨6, "divano", "NOUN", "divano", "Gender=Masc|Number=Sing", reprobe⟩,
    ⟨6, "pallone", "NOUN", "pallone", "Gender=Masc|Number=Sing", reprobe⟩,
    ⟨6, "bastone", "NOUN", "bastone", "Gender=Masc|Number=Sing", reprobe⟩,
    ⟨6, "cappello", "NOUN", "cappello", "Gender=Masc|Number=Sing", reprobe⟩,
    ⟨6, "difficile", "ADJ", "difficile", "Number=Sing", reprobe⟩,
    ⟨6, "seggiola", "NOUN", "seggiola", "Gender=Fem|Number=Sing", reprobe⟩,
    ⟨6, "piccola", "ADJ", "piccolo", "Gender=Fem|Number=Sing", reprobe⟩,
    ⟨6, "trottola", "NOUN", "trottola", "Gender=Fem|Number=Sing", reprobe⟩,
    ⟨6, "bottone", "NOUN", "bottone", "Gender=Masc|Number=Sing", reprobe⟩,
    ⟨6, "cielo", "NOUN", "cielo", "Gender=Masc|Number=Sing", reprobe⟩,
    ⟨6, "normale", "ADJ", "normale", "Number=Sing", reprobe⟩,
    ⟨6, "cavallone", "NOUN", "cavallone", "Gender=Masc|Number=Sing", reprobe⟩,
    ⟨6, "coccole", "NOUN", "coccole", "Gender=Fem|Number=Plur", reprobe⟩,
    ⟨7, "la", "DET", "il", "Definite=Def|Gender=Fem|Number=Sing|PronType=Art", reprobe⟩]

def componentRewriteRules : List ComponentRewriteRule :=
  [⟨9, "dagliela", "VERB", "dare", "Mood=Imp|Number=Sing|Person=2|VerbForm=Fin", reprobe⟩,
    ⟨10, "posala", "VERB", "posare", "Mood=Imp|Number=Sing|Person=2|VerbForm=Fin", reprobe⟩,
    ⟨10, "posalo", "VERB", "posare", "Mood=Imp|Number=Sing|Person=2|VerbForm=Fin", reprobe⟩]

end Tables

section Lookups

variable [PythonText]

def ruleFor (surface upos : String) : Option CompoundImperativeRule :=
  (compoundImperativeRules.find? (·.surface = PythonText.casefold surface)).filter
    fun rule => rule.observedUpos.contains (PythonText.upper upos)

def falseMwtRuleFor (surface : String) : Option FalseMwtRule :=
  falseMwtRules.find? (·.surface = PythonText.casefold surface)

def componentRewriteRuleFor (surface : String) : Option ComponentRewriteRule :=
  componentRewriteRules.find? (·.surface = PythonText.casefold surface)

def legacyMwtRuleFor (surface : String) : Option LegacyMwtRule :=
  legacyMwtRules.find? (·.surface = PythonText.casefold surface)

end Lookups

end Batchalign.Morphosyntax
