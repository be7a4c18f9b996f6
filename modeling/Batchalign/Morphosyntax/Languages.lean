import Batchalign.Morphosyntax.Basic

/-!
# What the handlers know of single languages

`en/irr.py`, `fr/apm.py`, `fr/case.py` and `ja/verbforms.py`: the irregular English verbs, the
French nouns whose plural is heard, the case of French pronouns, and the Japanese forms whose
lemma and part of speech are given by a table.
-/

namespace Batchalign.Morphosyntax

open PythonText

section English

/-- `IRR`, a verb with its past forms. -/
def irregularForms : List (String × List String) :=
  [("abide", ["abode", "abode"]), ("arise", ["arose", "arisen"]), ("awake", ["awoke", "awoken"]),
    ("be", ["was", "were", "been"]), ("bear", ["bore", "borne"]), ("beat", ["beat", "beaten"]),
    ("become", ["became", "become"]), ("befall", ["befell", "befallen"]),
    ("begin", ["began", "begun"]), ("beget", ["begot", "begotten"]),
    ("behold", ["beheld", "beholden"]), ("bend", ["bent", "bent"]),
    ("bereave", ["bereft", "bereft"]), ("beseek", ["besought", "besought"]),
    ("bet", ["bet", "bet"]), ("betake", ["betook", "betaken"]), ("bid", ["bid", "bid"]),
    ("bade", ["bidden", "bidden"]), ("bind", ["bound", "bound"]), ("bite", ["bit", "bitten"]),
    ("bleed", ["bled", "bled"]), ("blow", ["blew", "blown"]), ("break", ["broke", "broken"]),
    ("breed", ["bred", "bred"]), ("bring", ["brought", "brought"]),
    ("build", ["built", "built"]), ("burn", ["burnt"]), ("burst", ["burst", "burst"]),
    ("buy", ["bought", "bought"]), ("cast", ["cast", "cast"]), ("catch", ["caught", "caught"]),
    ("choose", ["chose", "chosen"]), ("clad", ["clad", "clad"]), ("cleave", ["cleft", "cloven"]),
    ("cling", ["clung", "clung"]), ("come", ["came", "come"]), ("cost", ["cost", "cost"]),
    ("creep", ["crept", "crept"]), ("cut", ["cut", "cut"]), ("deal", ["dealt", "dealt"]),
    ("dig", ["dug", "dug"]), ("dive", ["dove", "dived"]), ("do", ["did", "done"]),
    ("draw", ["drew", "drawn"]), ("dream", ["dreamt", "dreamt"]), ("drink", ["drank", "drunk"]),
    ("drive", ["drove", "driven"]), ("dwell", ["dwelt", "dwelt"]), ("eat", ["ate", "eaten"]),
    ("fall", ["fell", "fallen"]), ("feed", ["fed", "fed"]), ("feel", ["felt", "felt"]),
    ("fight", ["fought", "fought"]), ("find", ["found", "found"]), ("fit", ["fit", "fit"]),
    ("flee", ["fled", "fled"]), ("fling", ["flung", "flung"]), ("fly", ["flew", "flown"]),
    ("forbid", ["forbade", "forbidden"]), ("forecast", ["forecast", "forecast"]),
    ("forget", ["forgot", "forgotten"]), ("forgo", ["forewent", "foregone"]),
    ("foresee", ["foresaw", "foreseen"]), ("foretell", ["foretold", "foretold"]),
    ("forgive", ["forgave", "forgiven"]), ("forsake", ["forsook", "forsaken"]),
    ("forswear", ["forswore", "forsworn"]), ("freeze", ["froze", "frozen"]),
    ("get", ["got", "gotten"]), ("gild", ["gilt"]), ("give", ["gave", "given"]),
    ("go", ["went", "gone"]), ("grind", ["ground", "ground"]), ("grow", ["grew", "grown"]),
    ("hang", ["hung", "hung"]), ("have", ["had", "had"]), ("hear", ["heard", "heard"]),
    ("hew", ["hewn"]), ("hide", ["hid", "hidden"]), ("hit", ["hit", "hit"]),
    ("hold", ["held", "held"]), ("hurt", ["hurt", "hurt"]), ("inlay", ["inlaid", "inlaid"]),
    ("inset", ["inset", "inset"]), ("input", ["input", "input"]),
    ("interlay", ["interlaid", "interlaid"]), ("interweave", ["interwoven"]),
    ("keep", ["kept", "kept"]), ("kneel", ["knelt", "knelt"]), ("knit", ["knit", "knit"]),
    ("know", ["knew", "known"]), ("lay", ["laid", "laid"]), ("lead", ["led", "led"]),
    ("leap", ["leapt", "leapt"]), ("led", ["led", "led"]), ("leave", ["left", "left"]),
    ("lend", ["lent", "lent"]), ("let", ["let", "let"]), ("lie", ["lay", "lain"]),
    ("lose", ["lost", "lost"]), ("make", ["made", "made"]), ("mean", ["meant", "meant"]),
    ("meet", ["met", "met"]), ("misspeak", ["misspoke", "mispoken"]),
    ("mistake", ["mistook", "mistaken"]), ("offset", ["offset", "offset"]),
    ("overdo", ["overdid", "overdone"]), ("outbid", ["outbid", "outbid"]),
    ("pay", ["paid", "paid"]), ("partake", ["partook", "partaken"]), ("plead", ["pled", "pled"]),
    ("prepay", ["prepaid", "prepaid"]), ("prove", ["proven"]), ("put", ["put", "put"]),
    ("quit", ["quit", "quit"]), ("recast", ["recast", "recast"]), ("redo", ["redid", "redone"]),
    ("remake", ["remade", "remade"]), ("reset", ["reset", "reset"]), ("read", ["read", "read"]),
    ("rend", ["rent", "rent"]), ("rid", ["rid", "ridden"]), ("ride", ["rode", "ridden"]),
    ("ring", ["rang", "rung"]), ("rise", ["rose", "risen"]), ("run", ["ran", "run"]),
    ("say", ["said", "said"]), ("seek", ["sought", "sought"]), ("see", ["saw", "seen"]),
    ("sell", ["sold", "sold"]), ("send", ["sent", "sent"]), ("set", ["set", "set"]),
    ("sew", ["sewn"]), ("shake", ["shook", "shaken"]), ("shave", ["shaven"]),
    ("shed", ["shed", "shed"]), ("shine", ["shone", "shone"]), ("shoot", ["shot", "shot"]),
    ("show", ["shown"]), ("shrink", ["shrank", "shrunk"]), ("shut", ["shut", "shut"]),
    ("sing", ["sang", "sung"]), ("sink", ["sank", "sunk"]), ("sit", ["sat", "sat"]),
    ("slay", ["slew", "slain"]), ("sleep", ["slept", "slept"]), ("slide", ["slid", "slid"]),
    ("slink", ["slunk", "slunk"]), ("slit", ["slit", "slit"]), ("smite", ["smote", "smitten"]),
    ("sneak", ["snuck", "snuck"]), ("speak", ["spoke", "spoken"]), ("speed", ["sped", "sped"]),
    ("spend", ["spent", "spent"]), ("spin", ["spun", "spun"]), ("spit", ["spit", "spit"]),
    ("split", ["split", "split"]), ("spread", ["spread", "spread"]),
    ("spring", ["sprang", "sprung"]), ("stand", ["stood", "stood"]),
    ("steal", ["stole", "stolen"]), ("stick", ["stuck", "stuck"]), ("sting", ["stung", "stung"]),
    ("stink", ["stank", "stunk"]), ("strew", ["strewn"]), ("strike", ["struck", "struck"]),
    ("string", ["strung", "strung"]), ("strive", ["strove", "striven"]),
    ("swear", ["swore", "sworn"]), ("sweep", ["swept", "swept"]), ("swell", ["swollen"]),
    ("swim", ["swam", "swum"]), ("swing", ["swung", "swung"]), ("take", ["took", "taken"]),
    ("teach", ["taught", "taught"]), ("tear", ["tore", "torn"]), ("tell", ["told", "told"]),
    ("think", ["thought", "thought"]), ("throw", ["threw", "thrown"]),
    ("thrust", ["thrust", "thrust"]), ("tread", ["trod", "trod"]),
    ("unbend", ["unbended", "unbent"]), ("underlie", ["underlay", "underlain"]),
    ("undergo", ["underwent", "undergone"]), ("understand", ["understood", "understood"]),
    ("upset", ["upset", "upset"]), ("wake", ["woke", "woken"]),
    ("waylay", ["waylaid", "waylaid"]), ("wear", ["wore", "worn"]), ("weave", ["wove", "woven"]),
    ("wed", ["wed", "wed"]), ("weep", ["wept", "wept"]), ("wet", ["wet", "wet"]),
    ("win", ["won", "won"]), ("wind", ["wound", "wound"]),
    ("withdraw", ["withdrew", "withdrawn"]), ("withhold", ["withheld", "withheld"]),
    ("withstand", ["withstood", "withstood"]), ("wring", ["wrung", "wrung"]),
    ("write", ["wrote", "written"]), ("wreak", ["wrought", "wrough"])]

variable [PythonText]

def isIrregular (lemmaText form : String) : Bool :=
  match irregularForms.lookup (lower lemmaText) with
  | some forms => forms.contains (lower form)
  | none => false

end English

section French

/-- `APMN`. -/
def apmNouns : List String :=
  ["amiral", "amiraux", "animal", "animaux", "annal", "annaux", "anormal", "anormaux",
    "anticlérical", "anticléricaux", "arsenal", "arsenaux", "bocal", "bocaux", "canal", "canaux",
    "cantal", "cantaux", "capital", "capitaux", "caporal", "caporaux", "cardinal", "cardinaux",
    "central", "centraux", "chenal", "chenaux", "cheval", "chevaux", "clérical", "cléricaux",
    "collatéral", "collatéraux", "colonial", "coloniaux", "commensal", "commensaux", "communal",
    "communaux", "confessionnal", "confessionnaux", "cordial", "cordiaux", "corporal",
    "corporaux", "cristal", "cristaux", "cérébral", "cérébraux", "fanal", "fanaux", "frontal",
    "frontaux", "fédéral", "fédéraux", "féodal", "féodaux", "gardénal", "gardénaux", "général",
    "généraux", "hôpital", "hôpitaux", "idéal", "idéaux", "international", "internationaux",
    "journal", "journaux", "libéral", "libéraux", "local", "locaux", "madrigal", "madrigaux",
    "marsupial", "marsupiaux", "maréchal", "maréchaux", "mal", "maux", "minéral", "minéraux",
    "moral", "moraux", "méridional", "méridionaux", "métal", "métaux", "nasal", "nasaux",
    "national", "nationaux", "normal", "normaux", "numéral", "numéraux", "occidental",
    "occidentaux", "occipital", "occipitaux", "oral", "oraux", "ordinal", "ordinaux", "oriental",
    "orientaux", "original", "originaux", "piédestal", "piédestaux", "principal", "principaux",
    "provincial", "provinciaux", "quintal", "quintaux", "radical", "radicaux", "rival", "rivaux",
    "rural", "ruraux", "régional", "régionaux", "sentimental", "sentimentaux", "signal",
    "signaux", "social", "sociaux", "sénéchal", "sénéchaux", "temporal", "temporaux", "tergal",
    "tergaux", "total", "totaux", "tribunal", "tribunaux", "urinal", "urinaux", "vassal",
    "vassaux", "val", "vaux", "végétal", "végétaux", "véronal", "véronals", "éditorial",
    "éditoriaux", "égal", "égaux", "étal", "étau"]

def pronNom : List String :=
  ["qui", "je", "tu", "il", "elle", "ils", "elles", "moi", "toi", "lui", "elle", "eux", "elles"]

def pronAcc : List String := ["que", "quoi", "me", "te", "le", "la", "les", "lui", "leur"]

variable [PythonText]

def isApmNoun (noun : String) : Bool := apmNouns.contains (lower (strip noun))

/-- `strip("'")`. -/
def stripApostrophes (text : String) : String :=
  String.ofList ((text.toList.dropWhile (· == '\'')).rdropWhile (· == '\''))

def frenchCase (word : String) : String :=
  let clean := strip (stripApostrophes (lower word))
  if pronNom.contains clean then "Nom" else if pronAcc.contains clean then "Acc" else ""

end French

section Japanese

/-- One of the branches of `verbform`: when it is taken and what it returns. -/
structure VerbformRule where
  applies : String → String → String → Bool
  pos : String
  lemmaText : String

def inText (part pos lemmaText : String) : VerbformRule :=
  ⟨fun _ _ text => isIn part text, pos, lemmaText⟩

def inTarget (part pos lemmaText : String) : VerbformRule :=
  ⟨fun _ target _ => isIn part target, pos, lemmaText⟩

def textIs (surface pos lemmaText : String) : VerbformRule :=
  ⟨fun _ _ text => text == surface, pos, lemmaText⟩

def targetIs (stem pos lemmaText : String) : VerbformRule :=
  ⟨fun _ target _ => target == stem, pos, lemmaText⟩

def verbformRules : List VerbformRule :=
  [inText "ちゃ" "sconj" "ば",
    inText "なきゃ" "sconj" "なきゃ",
    inText "じゃ" "sconj" "ちゃ",
    inText "れる" "aux" "られる",
    inText "じゃう" "aux" "ちゃう",
    inText "よう" "aux" "おう",
    inText "だら" "aux" "たら",
    inTarget "だ" "aux" "た",
    ⟨fun _ target text => isIn "為る" target && text == "さ", "part", "為る"⟩,
    inTarget "無い" "aux" "ない",
    inTarget "せる" "aux" "させる",
    inText "撮る" "verb" "撮る",
    inText "貼る" "verb" "貼る",
    inText "混ぜ" "verb" "混ぜる",
    inText "釣る" "verb" "釣る",
    ⟨fun upos _ text => isIn "速い" text && upos == "adj", "adj", "速い"⟩,
    inText "治ま" "verb" "治まる",
    inText "刺す" "verb" "刺す",
    inText "降り" "verb" "降りる",
    inText "降" "verb" "降る",
    inText "載せ" "verb" "載せる",
    inText "帰" "verb" "帰る",
    inText "はい" "intj" "はい",
    inText "うん" "intj" "うん",
    inText "おっ" "intj" "おっ",
    inText "ほら" "intj" "ほら",
    inText "ヤッホー" "intj" "ヤッホー",
    inText "ただいま" "intj" "ただいま",
    inText "あたし" "pron" "あたし",
    inText "舐め" "verb" "舐める",
    inText "バツ" "noun" "バツ",
    inText "ブラシ" "noun" "ブラシ",
    inText "引き出し" "noun" "引き出し",
    inText "下さい" "noun" "下さい",
    ⟨fun _ target _ => ["シャャミー", "物コャミ"].contains target, "noun", "クシャミ"⟩,
    inText "マヨネーズ" "noun" "マヨネーズ",
    inText "マヨ" "noun" "マヨ",
    inText "チップス" "noun" "チップス",
    inText "ゴロンっ" "noun" "ゴロンっ",
    inText "モチーンっ" "noun" "モチーンっ",
    textIs "人っ" "noun" "人",
    textIs "掻く" "part" "かい",
    ⟨fun upos _ text => isIn "遣" text && upos == "noun", "verb", "遣る"⟩,
    inText "死" "verb" "死ぬ",
    inText "立" "verb" "立つ",
    inText "引" "verb" "引く",
    inText "出" "verb" "出す",
    inText "引" "verb" "引く",
    inText "飲" "verb" "飲む",
    inText "呼" "verb" "呼ぶ",
    inText "脱" "verb" "脱ぐ",
    ⟨fun upos _ text => text == "な" && upos == "part", "aux", "な"⟩,
    textIs "呼ん" "verb" "呼ぶ",
    ⟨fun upos _ text => text == "な" && upos == "aux", "aux", "な"⟩,
    textIs "だり" "aux" "たり",
    textIs "たり" "aux" "たり",
    textIs "たら" "sconj" "たら",
    textIs "たっ" "sconj" "たっ",
    ⟨fun _ target text => text == "なさい" && target == "為さる", "aux", "為さい"⟩,
    targetIs "ちゃ" "sconj" "ちゃ",
    targetIs "ない" "aux" "ない",
    ⟨fun upos _ text => text == "な" && upos == "part", "aux", "な"⟩,
    ⟨fun upos _ text => text == "脱" && upos == "noun", "verb", "脱"⟩,
    ⟨fun upos _ text => text == "よう" && upos == "aux", "aux", "よう"⟩,
    ⟨fun upos target text => text == "ろ" && upos == "aux" && target == "為る", "aux", "ろ"⟩,
    textIs "で" "sconj" "で"]

/-- The first branch that applies, if any. -/
def verbformRule (upos target text : String) : Option VerbformRule :=
  verbformRules.find? fun rule => rule.applies upos target text

def verbform (upos target text : String) : String × String :=
  match verbformRule upos target text with
  | some rule => (rule.pos, rule.lemmaText)
  | none => (upos, target)

end Japanese

end Batchalign.Morphosyntax
