import Mathlib
import Batchalign.Asr.Basic
import Batchalign.Asr.Num2Chinese

/-!
# Numbers as words

The expressions of `num2text` are recognised by the rules of a language and then by the common
ones; the first rule that takes the whole text captures its parts. A renderer writes them in
words, from a table of cardinals, from the Chinese converter, or by the ordinals and decades of
English, Dutch and Portuguese. The tables of the other languages, the languages that allow
digits in CHAT and the alphabetic characters are parameters.
-/

namespace Batchalign.Asr

open Positional

/-- The words of a language by the digits of their numbers. -/
abbrev NumberTable := List (String × String)

/-- The tables of `num2lang.json` but the English one, `language_allows_numbers`, and the
`Alphabetic` property. -/
class NumberLanguages where
  table : String → Option NumberTable
  allowsNumbers : String → Bool
  isAlphabetic : Char → Bool

section Tables

/-- The entries of the English table of `num2lang.json` below a hundred, but for the zero. -/
def smallNumbers : List (ℕ × String) :=
  [(99, "ninety-nine"), (98, "ninety-eight"), (97, "ninety-seven"), (96, "ninety-six"),
    (95, "ninety-five"), (94, "ninety-four"), (93, "ninety-three"), (92, "ninety-two"),
    (91, "ninety-one"), (90, "ninety"), (89, "eighty-nine"), (88, "eighty-eight"),
    (87, "eighty-seven"), (86, "eighty-six"), (85, "eighty-five"), (84, "eighty-four"),
    (83, "eighty-three"), (82, "eighty-two"), (81, "eighty-one"), (80, "eighty"),
    (79, "seventy-nine"), (78, "seventy-eight"), (77, "seventy-seven"), (76, "seventy-six"),
    (75, "seventy-five"), (74, "seventy-four"), (73, "seventy-three"), (72, "seventy-two"),
    (71, "seventy-one"), (70, "seventy"), (69, "sixty-nine"), (68, "sixty-eight"),
    (67, "sixty-seven"), (66, "sixty-six"), (65, "sixty-five"), (64, "sixty-four"),
    (63, "sixty-three"), (62, "sixty-two"), (61, "sixty-one"), (60, "sixty"), (59, "fifty-nine"),
    (58, "fifty-eight"), (57, "fifty-seven"), (56, "fifty-six"), (55, "fifty-five"),
    (54, "fifty-four"), (53, "fifty-three"), (52, "fifty-two"), (51, "fifty-one"), (50, "fifty"),
    (49, "forty-nine"), (48, "forty-eight"), (47, "forty-seven"), (46, "forty-six"),
    (45, "forty-five"), (44, "forty-four"), (43, "forty-three"), (42, "forty-two"),
    (41, "forty-one"), (40, "forty"), (39, "thirty-nine"), (38, "thirty-eight"),
    (37, "thirty-seven"), (36, "thirty-six"), (35, "thirty-five"), (34, "thirty-four"),
    (33, "thirty-three"), (32, "thirty-two"), (31, "thirty-one"), (30, "thirty"),
    (29, "twenty-nine"), (28, "twenty-eight"), (27, "twenty-seven"), (26, "twenty-six"),
    (25, "twenty-five"), (24, "twenty-four"), (23, "twenty-three"), (22, "twenty-two"),
    (21, "twenty-one"), (20, "twenty"), (19, "nineteen"), (18, "eighteen"), (17, "seventeen"),
    (16, "sixteen"), (15, "fifteen"), (14, "fourteen"), (13, "thirteen"), (12, "twelve"),
    (11, "eleven"), (10, "ten"), (9, "nine"), (8, "eight"), (7, "seven"), (6, "six"),
    (5, "five"), (4, "four"), (3, "three"), (2, "two"), (1, "one")]

def hundredNumbers : List (ℕ × String) :=
  [(900, "nine hundred"), (800, "eight hundred"), (700, "seven hundred"), (600, "six hundred"),
    (500, "five hundred"), (400, "four hundred"), (300, "three hundred"), (200, "two hundred"),
    (100, "one hundred")]

def engNumbers : List (ℕ × String) :=
  [(10000, "ten thousand"), (1000, "one thousand")] ++ hundredNumbers ++ smallNumbers ++
    [(0, "zero")]

/-- The English table. Its keys are the decimal digits of the numbers. -/
def engTable : NumberTable := engNumbers.map fun entry => (toString entry.1, entry.2)

/-- `parse::<u64>`. -/
def parseU64 (text : String) : Option ℕ :=
  let digits := match text.toList with
    | '+' :: rest => rest
    | chars => chars
  if digits ≠ [] ∧ digits.all Char.isDigit then
    let value := horner 10 (digits.map fun c => c.toNat - '0'.toNat)
    if value < 2 ^ 64 then some value else none
  else none

/-- The entries of a table, the largest number in front. -/
def tableEntries (table : NumberTable) : List (ℕ × String) :=
  let entries := table.filterMap fun entry => (parseU64 entry.1).map (·, entry.2)
  (entries.filter (0 < ·.1)).insertionSort fun left right => right.1 ≤ left.1

def joinWords (parts : List String) : String := " ".intercalate parts

/-- The words of a number over the rest of the entries. `all` is for the multipliers, which start
anew. -/
def decomposeFrom (all : List (ℕ × String)) (n : ℕ) : List (ℕ × String) → Option (List String)
  | [] => if n = 0 then some [] else none
  | (key, word) :: rest =>
      if n < key then decomposeFrom all n rest
      else if 100 ≤ key then do
        let part ←
          if 1 < n / key then
            (decomposeFrom all (n / key) all).map fun parts => joinWords parts ++ " " ++ word
          else some word
        if n % key = 0 then some [part]
        else (decomposeFrom all (n % key) rest).map (part :: ·)
      else if n - key = 0 then some [word]
      else (decomposeFrom all (n - key) rest).map (word :: ·)
termination_by entries => (n, entries.length)
decreasing_by
  all_goals simp_wf
  · exact Prod.Lex.right _ (Nat.lt_succ_self _)
  · exact Prod.Lex.left _ _ ((Nat.mod_lt _ (by omega)).trans_le (by omega))
  · exact Prod.Lex.left _ _ (Nat.div_lt_self (by omega) (by omega))
  · rcases Nat.eq_zero_or_pos key with rfl | positive
    · exact Prod.Lex.right _ (Nat.lt_succ_self _)
    · exact Prod.Lex.left _ _ (by omega)

def decomposeWithTable (n : ℕ) (table : NumberTable) : Option String :=
  if n = 0 then table.lookup "0"
  else (decomposeFrom (tableEntries table) n (tableEntries table)).bind fun parts =>
    if parts.isEmpty then none else some (joinWords parts)

variable [NumberLanguages]

def num2lang (lang : String) : Option NumberTable :=
  if lang = "eng" then some engTable else NumberLanguages.table lang

def tableCardinal (word lang : String) : Option String :=
  (num2lang lang).bind fun table =>
    (table.lookup word).or ((parseU64 word).bind (decomposeWithTable · table))

end Tables

section Rules

inductive RuleKind where
  | cardinal
  | ordinal
  | decade
  | digitGroups
  | hyphenCompound
  | currency
  deriving DecidableEq

inductive Renderer where
  | table
  | english
  | dutch
  | portuguese
  | simplified
  | traditional
  deriving DecidableEq

/-- The named captures of a rule; a capture that the pattern does not have is empty. -/
structure NumberGroups where
  value : List Char
  symbol : List Char
  rest : List Char
  gender : List Char
  plural : List Char

def NumberGroups.ofValue (value : List Char) : NumberGroups where
  value := value
  symbol := []
  rest := []
  gender := []
  plural := []

/-- Digits in front of a text, at least one. -/
def leadingDigits (chars : List Char) : Option (List Char × List Char) :=
  let digits := chars.takeWhile Char.isDigit
  if digits.isEmpty then none else some (digits, chars.dropWhile Char.isDigit)

/-- Digits with one of the suffixes. -/
def digitsWithSuffix (suffixes : List String) (chars : List Char) : Option NumberGroups := do
  let (digits, suffix) ← leadingDigits chars
  if suffixes.contains (String.ofList suffix) then some (.ofValue digits) else none

def ordinalNld : List Char → Option NumberGroups := digitsWithSuffix ["e", "de", "ste", "ᵉ"]

def ordinalEng : List Char → Option NumberGroups := digitsWithSuffix ["st", "nd", "rd", "th"]

def decadeEng : List Char → Option NumberGroups := digitsWithSuffix ["s"]

def ordinalPor (chars : List Char) : Option NumberGroups := do
  let (digits, rest) ← leadingDigits chars
  let unpointed := if rest.head? = some '.' then rest.tail else rest
  match unpointed with
  | gender :: plural =>
      if (gender = 'º' ∨ gender = 'ª') ∧ (plural = [] ∨ plural = ['s']) then
        some { NumberGroups.ofValue digits with gender := [gender], plural := plural }
      else none
  | [] => none

def digitGroupsRule (chars : List Char) : Option NumberGroups :=
  let parts := chars.splitOn '-'
  if 2 ≤ parts.length ∧ parts.all fun part => ! part.isEmpty && part.all Char.isDigit then
    some (.ofValue chars)
  else none

variable [NumberLanguages]

def hyphenCompoundRule (chars : List Char) : Option NumberGroups := do
  let (digits, rest) ← leadingDigits chars
  match rest with
  | '-' :: first :: more =>
      if NumberLanguages.isAlphabetic first && more.all fun c => c ≠ '\r' ∧ c ≠ '\n' then
        some { NumberGroups.ofValue digits with rest := first :: more }
      else none
  | _ => none

def currencyPrefix (chars : List Char) : Option NumberGroups :=
  match chars with
  | symbol :: rest => do
      let (digits, space) ← leadingDigits (rest.dropWhile isWhitespace)
      if ['$', '€', '£', '¥', '₹', '₩', '₽'].contains symbol && space.all isWhitespace then
        some { NumberGroups.ofValue digits with symbol := [symbol] }
      else none
  | [] => none

def currencySuffix (chars : List Char) : Option NumberGroups := do
  let (digits, rest) ← leadingDigits (chars.dropWhile isWhitespace)
  match rest.dropWhile isWhitespace with
  | [symbol] =>
      if symbol = '€' ∨ symbol = '₹' then
        some { NumberGroups.ofValue digits with symbol := [symbol] }
      else none
  | _ => none

def cardinalRule : List Char → Option NumberGroups := digitsWithSuffix [""]

/-- A rule: its kind, and its pattern with both ends anchored. -/
abbrev NumericRule := RuleKind × (List Char → Option NumberGroups)

def commonRules : List NumericRule :=
  [(.digitGroups, digitGroupsRule), (.hyphenCompound, hyphenCompoundRule),
    (.currency, currencyPrefix), (.currency, currencySuffix), (.cardinal, cardinalRule)]

def languageRules (lang : String) : List NumericRule :=
  if lang = "nld" then [(.ordinal, ordinalNld)]
  else if lang = "eng" then [(.ordinal, ordinalEng), (.decade, decadeEng)]
  else if lang = "por" then [(.ordinal, ordinalPor)]
  else []

def rendererOf (lang : String) : Renderer :=
  if lang = "nld" then .dutch
  else if lang = "eng" then .english
  else if lang = "por" then .portuguese
  else if lang = "zho" ∨ lang = "cmn" then .simplified
  else if lang = "jpn" ∨ lang = "yue" then .traditional
  else .table

def recognize (chars : List Char) (lang : String) : Option (RuleKind × NumberGroups) :=
  (languageRules lang ++ commonRules).findSome? fun rule => (rule.2 chars).map (rule.1, ·)

end Rules

section Languages

def cardinalTens : List String :=
  ["", "ten", "twenty", "thirty", "forty", "fifty", "sixty", "seventy", "eighty", "ninety"]

def ordinal0To19 : List String :=
  ["zeroth", "first", "second", "third", "fourth", "fifth", "sixth", "seventh", "eighth", "ninth",
    "tenth", "eleventh", "twelfth", "thirteenth", "fourteenth", "fifteenth", "sixteenth",
    "seventeenth", "eighteenth", "nineteenth"]

def ordinalTensMultiple : List String :=
  ["", "tenth", "twentieth", "thirtieth", "fortieth", "fiftieth", "sixtieth", "seventieth",
    "eightieth", "ninetieth"]

def cardinal0To19 : List String :=
  ["zero", "one", "two", "three", "four", "five", "six", "seven", "eight", "nine", "ten",
    "eleven", "twelve", "thirteen", "fourteen", "fifteen", "sixteen", "seventeen", "eighteen",
    "nineteen"]

/-- An entry of a table of words; the guards of the callers keep the index in range. -/
def wordAt (words : List String) (index : ℕ) : String := words.getD index ""

def expandOrdinalEng (n : ℕ) : String :=
  if n < 20 then wordAt ordinal0To19 n
  else if n < 100 then
    if n % 10 = 0 then wordAt ordinalTensMultiple (n / 10)
    else wordAt cardinalTens (n / 10) ++ "-" ++ wordAt ordinal0To19 (n % 10)
  else if n < 1000 then
    let head := wordAt cardinal0To19 (n / 100) ++ " hundred"
    if n % 100 = 0 then head ++ "th" else head ++ " and " ++ expandOrdinalEng (n % 100)
  else if n < 10000 then
    let head := wordAt cardinal0To19 (n / 1000) ++ " thousand"
    if n % 1000 = 0 then head ++ "th"
    else head ++ (if n % 1000 < 100 then ", and " else ", ") ++ expandOrdinalEng (n % 1000)
  else toString n ++ "th"
termination_by n
decreasing_by all_goals omega

def cardinalUnder100 (n : ℕ) : String :=
  if n < 20 then wordAt cardinal0To19 n
  else if n % 10 = 0 then wordAt cardinalTens (n / 10)
  else wordAt cardinalTens (n / 10) ++ "-" ++ wordAt cardinal0To19 (n % 10)

def expandYearEng (n : ℕ) : String :=
  if n < 100 then cardinalUnder100 n
  else if ¬ (1100 ≤ n ∧ n ≤ 2999) then toString n
  else if n / 100 = 20 ∧ n % 100 < 10 then
    if n % 100 = 0 then "two thousand"
    else "two thousand and " ++ wordAt cardinal0To19 (n % 100)
  else if n % 100 = 0 then cardinalUnder100 (n / 100) ++ " hundred"
  else cardinalUnder100 (n / 100) ++ " " ++ cardinalUnder100 (n % 100)

def pluralizeLastWord (s : String) : String :=
  let parts := splitWhitespace s
  match parts.getLast? with
  | none => s
  | some last =>
      let pluralized := match stripSuffix "y" last with
        | some stem => stem ++ "ies"
        | none => last ++ "s"
      if parts.dropLast.isEmpty then pluralized
      else joinWords parts.dropLast ++ " " ++ pluralized

def expandDecadeEng (n : ℕ) : String :=
  if n < 100 then pluralizeLastWord (cardinalUnder100 n)
  else pluralizeLastWord (expandYearEng n)

def renderEng (kind : RuleKind) (groups : NumberGroups) : Except String String :=
  match parseU64 (String.ofList groups.value) with
  | none => .error "English number exceeds u64"
  | some n =>
      match kind with
      | .ordinal => .ok (expandOrdinalEng n)
      | .decade => .ok (expandDecadeEng n)
      | _ => .error "unsupported English number expression"

def units : List String :=
  ["", "primeiro", "segundo", "terceiro", "quarto", "quinto", "sexto", "sétimo", "oitavo", "nono"]

def tens : List String :=
  ["", "décimo", "vigésimo", "trigésimo", "quadragésimo", "quinquagésimo", "sexagésimo",
    "septuagésimo", "octogésimo", "nonagésimo"]

def hundreds : List String :=
  ["", "centésimo", "ducentésimo", "tricentésimo", "quadringentésimo", "quingentésimo",
    "sexcentésimo", "septingentésimo", "octingentésimo", "noningentésimo"]

/-- An ordinal in its gender and number. -/
def inflect (feminine plural : Bool) (part : String) : String :=
  let stem := if feminine then part.toList.dropLast ++ ['a'] else part.toList
  String.ofList (stem ++ if plural then ['s'] else [])

def renderPor (kind : RuleKind) (groups : NumberGroups) : Except String String :=
  if kind ≠ .ordinal then .error "unsupported Portuguese number expression"
  else match parseU64 (String.ofList groups.value) with
    | none => .error "Portuguese ordinal exceeds supported range 1..=1000"
    | some n =>
        if ¬ (1 ≤ n ∧ n ≤ 1000) then
          .error "Portuguese ordinal exceeds supported range 1..=1000"
        else
          let parts :=
            if n = 1000 then ["milésimo"]
            else [wordAt hundreds (n / 100), wordAt tens (n / 10 % 10), wordAt units (n % 10)]
          .ok (joinWords ((parts.filter (! ·.isEmpty)).map
            (inflect (groups.gender == ['ª']) (! groups.plural.isEmpty))))

variable [NumberLanguages]

def ordinalDutch (n : ℕ) : Except String String :=
  if n = 1 then .ok "eerste"
  else if n = 3 then .ok "derde"
  else if n = 8 then .ok "achtste"
  else if 100 ≤ n ∧ n ≤ 999 ∧ n % 100 ≠ 0 then
    match tableCardinal (toString (n / 100 * 100)) "nld" with
    | none => .error "missing Dutch hundred"
    | some head => (ordinalDutch (n % 100)).map (head ++ ·)
  else
    match tableCardinal (toString n) "nld" with
    | none => .error "missing Dutch cardinal"
    | some cardinal => .ok (cardinal ++ if n < 20 then "de" else "ste")
termination_by n
decreasing_by omega

def renderNld (groups : NumberGroups) : Except String String :=
  match parseU64 (String.ofList groups.value) with
  | none => .error "Dutch ordinal exceeds supported range 1..=1000"
  | some n =>
      if ¬ (1 ≤ n ∧ n ≤ 1000) then .error "Dutch ordinal exceeds supported range 1..=1000"
      else ordinalDutch n

end Languages

section Common

variable [NumberLanguages]

/-- The Chinese cardinal of a 64-bit number. -/
def cjkCardinal (value : String) (renderer : Renderer) : Option String :=
  (parseU64 value).bind fun n =>
    match renderer with
    | .simplified => num2chinese (UInt64.ofNat n) .simplified
    | .traditional => num2chinese (UInt64.ofNat n) .traditional
    | _ => none

def cardinal (value lang : String) (renderer : Renderer) : Option String :=
  match renderer with
  | .simplified | .traditional => (cjkCardinal value renderer).or (tableCardinal value lang)
  | _ => tableCardinal value lang

/-- A cardinal, or the digits themselves. -/
def cardinalOrDigits (value lang : String) (renderer : Renderer) : String :=
  (cardinal value lang renderer).getD value

def currencyNames : List (String × String) :=
  [("$", "dollars"), ("€", "euros"), ("£", "pounds"), ("¥", "yen"), ("₹", "rupees"),
    ("₩", "won"), ("₽", "rubles")]

def renderCommon (kind : RuleKind) (groups : NumberGroups) (lang : String)
    (renderer : Renderer) : Except String String :=
  let value := String.ofList groups.value
  match kind with
  | .cardinal =>
      match cardinal value lang renderer with
      | some text => .ok text
      | none => .error "no cardinal rendering for this language or magnitude"
  | .digitGroups =>
      .ok (joinWords ((splitAt '-' value).map (cardinalOrDigits · lang renderer)))
  | .hyphenCompound =>
      if NumberLanguages.allowsNumbers lang then .error "language permits digits in compounds"
      else
        let expanded := cardinalOrDigits value lang renderer
        if expanded = value then .error "no cardinal rendering for compound"
        else .ok (expanded ++ "-" ++ String.ofList groups.rest)
  | .currency =>
      match currencyNames.lookup (String.ofList groups.symbol) with
      | none => .error "unsupported currency"
      | some currency => .ok (cardinalOrDigits value lang renderer ++ " " ++ currency)
  | _ => .error "language has no renderer for this number expression"

/-- The span is in bytes of the input. -/
inductive Expansion where
  | noMatch
  | expanded (sourceSpan : ℕ × ℕ) (text : String)
  | unsupported (sourceSpan : ℕ × ℕ) (reason : String)
  deriving DecidableEq

def normalizeDashes (text : String) : String :=
  text.map fun c => if c = '—' ∨ c = '–' then '-' else c

def renderNumber (kind : RuleKind) (groups : NumberGroups) (lang : String) :
    Except String String :=
  match rendererOf lang, kind with
  | .english, .ordinal => renderEng .ordinal groups
  | .english, .decade => renderEng .decade groups
  | .portuguese, .ordinal => renderPor .ordinal groups
  | .dutch, .ordinal => renderNld groups
  | renderer, kind => renderCommon kind groups lang renderer

/-- A rule takes the whole text, before and after the dashes are normalised. -/
def expand (text lang : String) : Expansion :=
  let lang := toAsciiLowercase lang
  let normalized := normalizeDashes text
  match recognize normalized.toList lang with
  | none => .noMatch
  | some (kind, groups) =>
      let sourceSpan :=
        if normalized = text then (0, normalized.utf8ByteSize) else (0, text.utf8ByteSize)
      match renderNumber kind groups lang with
      | .ok rendered => .expanded sourceSpan rendered
      | .error reason => .unsupported sourceSpan reason

def expandNumber (word lang : String) : String :=
  match expand word lang with
  | .expanded _ text => text
  | .unsupported _ _ => normalizeDashes word
  | .noMatch => normalizeDashes word

end Common

end Batchalign.Asr
