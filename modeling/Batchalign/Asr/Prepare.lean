import Batchalign.Asr.Basic

/-!
# Preparing the words

`compounds.rs`, `prepare.rs`, `cantonese.rs` and `expand.rs` of `batchalign-core/src/asr`, and
the part of `num2text` that `prepare.rs` asks. Elements become words with millisecond times,
and one word is split in several where it holds more than one token, a percent sign or a
number; the parts share the interval of the word by their lengths.
-/

namespace Batchalign.Asr

section Elements

variable [AsrTables]

def mergeCompounds : List AsrElement → List AsrElement
  | first :: second :: elements =>
      if AsrTables.isCompound first.value second.value then
        { first with value := first.value ++ second.value, kind := .text } ::
          mergeCompounds elements
      else first :: mergeCompounds (second :: elements)
  | elements => elements

def enTitlePeriodSurfaces : List String :=
  ["dr.", "mr.", "mrs.", "prof.", "st.", "mt.", "ave.", "a.m.", "p.m.", "u.s.", "j.f.k.", "ph.d.",
    "m.d.", "etc.", "e.g.", "i.e."]

variable [UnicodeCase]

/-- The text without its periods when it is a title or an abbreviation. -/
def stripTitlePeriods (text : String) : String :=
  if enTitlePeriodSurfaces.contains (UnicodeCase.toLowercase text) then
    String.ofList (text.toList.filter (· != '.'))
  else text

def stripEnglishTitlePeriodsOnElements (elements : List AsrElement) (lang : String) :
    List AsrElement :=
  if lang != "eng" then elements
  else elements.map fun element => { element with value := stripTitlePeriods element.value }

end Elements

section Timing

variable [Float64]

/-- A number of seconds in whole milliseconds. -/
def toMillis (seconds : ℚ) : ℤ := saturateI64 (roundHalfAway (Float64.round (seconds * 1000)))

/-- An empty or reversed range has no times. -/
def normalizedTimingRange : Option ℚ → Option ℚ → Option ℤ × Option ℤ
  | some start, some stop =>
      if toMillis stop ≤ toMillis start then (none, none)
      else (some (toMillis start), some (toMillis stop))
  | _, _ => (none, none)

def isPauseMarker (value : String) : Bool :=
  value.toList.head? == some '<' && value.toList.getLast? == some '>'

def extractTimedWord (element : AsrElement) : Option AsrWord :=
  let value := trim element.value
  if value.isEmpty || isPauseMarker value then none
  else
    let (startMs, endMs) := normalizedTimingRange element.ts element.endTs
    some (AsrWord.new value startMs endMs)

def extractTimedWords (elements : List AsrElement) : List AsrWord :=
  elements.filterMap extractTimedWord

end Timing

section Boundaries

def trimWordBoundary (strip : Char → Bool) (word : AsrWord) : Option AsrWord :=
  let stripped := trimMatches strip word.text
  if stripped.isEmpty then none else some { word with text := stripped }

def trimWordBoundaries (words : List AsrWord) (strip : Char → Bool) : List AsrWord :=
  words.filterMap (trimWordBoundary strip)

def isStrippable (c : Char) : Bool := [',', '„', '‡', '،', '؛'].contains c

def stripSeparatorWords (words : List AsrWord) : List AsrWord :=
  trimWordBoundaries words isStrippable

def isBoundaryQuote (c : Char) : Bool := ['"', '“', '”', '„', '‘', '’', '«', '»'].contains c

def stripBoundaryQuotes (words : List AsrWord) : List AsrWord :=
  trimWordBoundaries words isBoundaryQuote

end Boundaries

section Cantonese

/-- The replacements after the conversion. -/
def replacements : List (String × String) :=
  [("聯繫", "聯繫"), ("聯係", "聯繫"), ("系啊", "係啊"), ("真系", "真係"), ("唔系", "唔係"),
    ("中意", "鍾意"), ("遊水", "游水"), ("羣組", "群組"), ("古仔", "故仔"), ("較剪", "鉸剪"),
    ("衝涼", "沖涼"), ("分鍾", "分鐘"), ("重復", "重複"), ("系", "係"), ("繫", "係"), ("呀", "啊"),
    ("噶", "㗎"), ("咧", "呢"), ("嗬", "喎"), ("只", "隻"), ("咯", "囉"), ("嚇", "吓"),
    ("啫", "咋"), ("哇", "嘩"), ("着", "著"), ("嘞", "喇"), ("啵", "噃"), ("甕", "㧬"),
    ("牀", "床"), ("松", "鬆"), ("吵", "嘈")]

/-- The longest pattern in front of a text, with its replacement. -/
def longestReplacement (chars : List Char) : Option (ℕ × List Char) :=
  let found := replacements.filter fun entry => entry.1.toList.isPrefixOf chars
  (found.argmax fun entry => entry.1.toList.length).map fun entry =>
    (entry.1.toList.length, entry.2.toList)

def applyReplacements (text : String) : String :=
  String.ofList (replaceMatches longestReplacement 0 text.toList)

variable [AsrTables]

def normalizeCantonese (text : String) : String := applyReplacements (AsrTables.s2hk text)

def isCjkPunctOrSpace (c : Char) : Bool :=
  ['\u3000', '\u3001', '\u3002', '\uFF0C', '\uFF01', '\uFF1F', '\u300C', '\u300D', '\uFF1A',
    '\uFF1B', ' ', '\t', '\n', '\x0C', '\r'].contains c

def cantoneseCharTokens (text : String) : List String :=
  ((normalizeCantonese text).toList.filter (! isCjkPunctOrSpace ·)).map String.singleton

def isCjkIdeograph (c : Char) : Bool :=
  [(0x3400, 0x4DBF), (0x4E00, 0x9FFF), (0xF900, 0xFAFF), (0x20000, 0x2A6DF), (0x2A700, 0x2B73F),
    (0x2B740, 0x2B81F), (0x2B820, 0x2CEAF), (0x2F800, 0x2FA1F)].any fun range =>
      range.1 ≤ c.toNat && c.toNat ≤ range.2

def shouldSplitCantoneseChars (text : String) : Bool :=
  text.toList.all (fun c => ! c.isAlpha && ! c.isDigit) && text.toList.any isCjkIdeograph

end Cantonese

section Splitting

/-- `some none` ends a token and leaves nothing. -/
def normalizedSplitSeparator (c : Char) : Option (Option String) :=
  if c = '.' then some (some ".")
  else if ['?', '？', '؟'].contains c then some (some "?")
  else if ['!', '！'].contains c then some (some "!")
  else if [',', '，', '、', '،'].contains c then some (some ",")
  else if ['¿', '¡'].contains c then some none
  else if c = '。' then some (some ".")
  else none

/-- The length of a Portuguese ordinal in front of a text, the one rule that protects its
punctuation: digits, a period or none, the gender, a plural or none. -/
def ordinalPorLength (chars : List Char) : Option ℕ :=
  let digits := (chars.takeWhile Char.isDigit).length
  let period := if (chars.drop digits).head? = some '.' then 1 else 0
  let gender := chars.drop (digits + period)
  if digits = 0 then none
  else match gender with
    | 'º' :: tail | 'ª' :: tail =>
        some (digits + period + 1 + (if tail.head? = some 's' then 1 else 0))
    | _ => none

/-- Such a number ends at a boundary. -/
def protectedPrefixLen (chars : List Char) (lang : String) : Option ℕ :=
  if toAsciiLowercase lang = "por" then
    (ordinalPorLength chars).filter fun length =>
      (chars.drop length).head?.all fun c =>
        isWhitespace c || (normalizedSplitSeparator c).isSome
  else none

/-- A part of a word and whether it is a separator. -/
abbrev Part := String × Bool

def flushCurrent (current : List Char) : List Part :=
  if current.isEmpty then [] else [(String.ofList current, false)]

/-- The parts of a word. The counter skips what a protected number has consumed, `current` is
the token so far. -/
def splitParts (lang : String) : ℕ → List Char → List Char → List Part
  | _, current, [] => flushCurrent current
  | skip + 1, current, _ :: chars => splitParts lang skip current chars
  | 0, current, c :: chars =>
      match if current.isEmpty then protectedPrefixLen (c :: chars) lang else none with
      | some length =>
          (String.ofList ((c :: chars).take length), false) ::
            splitParts lang (length - 1) [] chars
      | none =>
          if isWhitespace c then flushCurrent current ++ splitParts lang 0 [] chars
          else match normalizedSplitSeparator c with
            | some separator =>
                flushCurrent current ++ separator.toList.map (·, true) ++
                  splitParts lang 0 [] chars
            | none => splitParts lang 0 (current ++ [c]) chars

variable [AsrTables]

def expandLanguagePart (text lang : String) : List Part :=
  if lang != "yue" || ! shouldSplitCantoneseChars text then [(text, false)]
  else
    let tokens := cantoneseCharTokens text
    if tokens.length ≤ 1 then [(text, false)] else tokens.map (·, false)

def expandParts (parts : List Part) (lang : String) : List Part :=
  parts.flatMap fun part => if part.2 then [part] else expandLanguagePart part.1 lang

def totalTextChars (parts : List Part) : ℕ :=
  ((parts.filter (! ·.2)).map fun part => charCount part.1).sum

/-- The time after `consumed` of `total` characters of a span. -/
def interpolate (start span : ℤ) (total consumed : ℕ) : ℤ :=
  wrapI64 (start + (wrapI64 (span * consumed)).tdiv total)

/-- The parts as words. The text parts share the span, separators have no time. -/
def timeParts (span : Option (ℤ × ℤ)) (total : ℕ) : ℕ → List Part → List AsrWord
  | _, [] => []
  | consumed, (text, true) :: parts =>
      AsrWord.new text none none :: timeParts span total consumed parts
  | consumed, (text, false) :: parts =>
      let next := consumed + charCount text
      AsrWord.new text (span.map fun (start, span) => interpolate start span total consumed)
        (span.map fun (start, span) => interpolate start span total next) ::
          timeParts span total next parts

/-- The start and the length of an interval that is not empty. -/
def timedSpan (startMs endMs : Option ℤ) (total : ℕ) : Option (ℤ × ℤ) :=
  match startMs, endMs with
  | some start, some stop =>
      if start < stop ∧ 0 < total then some (start, wrapI64 (stop - start)) else none
  | _, _ => none

def splitChunkWord (word : AsrWord) (lang : String) : List AsrWord :=
  let parts := expandParts (splitParts lang 0 [] word.text.toList) lang
  if parts = [(word.text, false)] then [word]
  else
    let total := totalTextChars parts
    timeParts (timedSpan word.startMs word.endMs total) total 0 parts

/-- A word that starts with a hyphen is joined to the word before it, and brings its end. -/
def joinHyphen (result : List AsrWord) (word : AsrWord) (lang : String) : List AsrWord :=
  match result.getLast? with
  | some prev =>
      if word.text.toList.head? = some '-' then
        result.dropLast ++ [{ prev with text := prev.text ++ word.text, endMs := word.endMs }]
      else result ++ splitChunkWord word lang
  | none => splitChunkWord word lang

def splitMultiwordTokens (words : List AsrWord) (lang : String) : List AsrWord :=
  words.foldl (fun result word => joinHyphen result word lang) []

end Splitting

section Percent

def percentWordByLang : List (String × String) :=
  [("eng", "percent"), ("fra", "pour_cent"), ("spa", "por_ciento"), ("deu", "Prozent"),
    ("ita", "per_cento"), ("por", "por_cento"), ("nld", "procent"), ("jpn", "パーセント"),
    ("zho", "百分"), ("cmn", "百分"), ("yue", "百分")]

variable [UnicodeCase]

def languagePercentWord (lang : String) : Option String :=
  percentWordByLang.lookup (UnicodeCase.toLowercase lang)

/-- The digits in front of a percent sign. -/
def percentDigits (text : String) : Option String :=
  (stripSuffix "%" text).filter fun digits =>
    ! digits.isEmpty && digits.toList.all Char.isDigit

/-- The times of the digits and of the percent word. -/
def percentTimes (word : AsrWord) (digits : String) :
    (Option ℤ × Option ℤ) × (Option ℤ × Option ℤ) :=
  match word.startMs, word.endMs with
  | some start, some stop =>
      if start < stop then
        let split := interpolate start (wrapI64 (stop - start)) (max (charCount word.text) 1)
          (charCount digits)
        ((some start, some split), (some split, some stop))
      else ((some start, some stop), (none, none))
  | startMs, endMs => ((startMs, endMs), (none, none))

def splitPercentSuffixWord (word : AsrWord) (lang : String) : List AsrWord :=
  match percentDigits word.text with
  | none => [word]
  | some digits =>
      let (digitTimes, percentTimes) := percentTimes word digits
      AsrWord.new digits digitTimes.1 digitTimes.2 ::
        (languagePercentWord lang).toList.map fun percentWord =>
          AsrWord.new percentWord percentTimes.1 percentTimes.2

def splitPercentSuffixWords (words : List AsrWord) (lang : String) : List AsrWord :=
  words.flatMap (splitPercentSuffixWord · lang)

end Percent

section Numbers

def timeExpandedParts (span : Option (ℤ × ℤ)) (total : ℕ) (kind : WordKind) :
    ℕ → List String → List AsrWord
  | _, [] => []
  | consumed, part :: parts =>
      let next := consumed + charCount part
      { text := part
        startMs := span.map fun (start, span) => interpolate start span (max total 1) consumed
        endMs := span.map fun (start, span) => interpolate start span (max total 1) next
        kind := kind } :: timeExpandedParts span total kind next parts

def splitExpandedTextIntoWords (expanded : String) (startMs endMs : Option ℤ)
    (kind : WordKind) : List AsrWord :=
  let parts := splitWhitespace expanded
  let total := (parts.map charCount).sum
  timeExpandedParts (timedSpan startMs endMs total) total kind 0 parts

variable [AsrTables]

def expandNumbersInWord (word : AsrWord) (lang : String) : List AsrWord :=
  let expanded := AsrTables.expandNumber word.text lang
  if ! containsWhitespace expanded then [{ word with text := expanded }]
  else splitExpandedTextIntoWords expanded word.startMs word.endMs word.kind

def expandNumbersInWords (words : List AsrWord) (lang : String) : List AsrWord :=
  words.flatMap (expandNumbersInWord · lang)

end Numbers

section Preparation

variable [AsrTables] [UnicodeCase] [Float64]

def prepareWordsPreExpansion (elements : List AsrElement) (lang : String) : List AsrWord :=
  let words := extractTimedWords (stripEnglishTitlePeriodsOnElements (mergeCompounds elements) lang)
  let words := stripBoundaryQuotes (stripSeparatorWords words)
  let words := stripBoundaryQuotes (splitMultiwordTokens words lang)
  splitPercentSuffixWords words lang

end Preparation

end Batchalign.Asr
