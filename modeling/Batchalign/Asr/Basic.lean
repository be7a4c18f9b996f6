import Batchalign.Chat.Basic
import Batchalign.Text

/-!
# Recognised speech

The data that the stages of `batchalign-core/src/asr` pass on, and the text and number
operations of the standard library they use. Times are signed 64-bit integers, whose
operations wrap. The tables of words, numbers and characters and the grammar of a CHAT
word are parameters.
-/

namespace Batchalign.Asr

section Data

inductive WordKind where
  | regular
  | retrace
deriving DecidableEq, Repr

structure AsrWord where
  text : String
  startMs : Option ℤ
  endMs : Option ℤ
  kind : WordKind
deriving DecidableEq, Repr

/-- A regular word. -/
def AsrWord.new (text : String) (startMs endMs : Option ℤ) : AsrWord where
  text := text
  startMs := startMs
  endMs := endMs
  kind := .regular

structure Utterance where
  speaker : ℕ
  words : List AsrWord
  lang : Option String
deriving DecidableEq, Repr

structure PreparedMonologueChunk where
  speaker : ℕ
  words : List AsrWord
deriving DecidableEq, Repr

inductive AsrElementKind where
  | text
  | punctuation
deriving DecidableEq, Repr

/-- The times are seconds; `none` is an infinity or not a number. -/
structure AsrElement where
  value : String
  ts : Option ℚ
  endTs : Option ℚ
  kind : AsrElementKind
deriving DecidableEq, Repr

structure AsrMonologue where
  speaker : ℕ
  elements : List AsrElement
deriving DecidableEq, Repr

structure AsrOutput where
  monologues : List AsrMonologue
deriving DecidableEq, Repr

end Data

section Constants

def endingPunct : List String :=
  [".", "?", "!", "+...", "+/.", "+//.", "+/?", "+!?", "+\"/.", "+\".", "+//?", "+..?", "+.",
    "...", "(.)"]

def morPunct : List String := ["‡", "„", ","]

def rtlPunct : List (String × String) := [("؟", "?"), ("۔", "."), ("،", ","), ("؛", ";")]

def maxTurnLen : ℕ := 300

def longPauseSplitMs : ℤ := 800

def longPauseSentenceStarters : List String :=
  ["and", "but", "did", "do", "does", "go", "have", "has", "had", "he", "how", "i", "is", "it",
    "no", "now", "okay", "so", "then", "they", "we", "well", "what", "when", "where", "who",
    "why", "yes", "you"]

end Constants

section Parameters

/-- The character classes of Unicode. -/
class UnicodeProperties where
  isAlphanumeric : Char → Bool
  isUppercase : Char → Bool
  isLowercase : Char → Bool

/-- The compound words, the conversion from simplified to Hong Kong characters, and the
rendering of numbers in words. -/
class AsrTables where
  isCompound : String → String → Bool
  s2hk : String → String
  expandNumber : String → String → String

end Parameters

section Characters

def trimMatches (strip : Char → Bool) (text : String) : String :=
  String.ofList ((text.toList.dropWhile strip).rdropWhile strip)

def containsWhitespace (text : String) : Bool := text.toList.any isWhitespace

def charCount (text : String) : ℕ := text.toList.length

def toAsciiLowercase (text : String) : String := text.map Char.toLower

def eqIgnoreAsciiCase (left right : String) : Bool :=
  toAsciiLowercase left == toAsciiLowercase right

/-- Replaces the matches from the left. `find` gives the length of the match in front of a
text, which is not zero, and what stands for it; the counter skips the rest of a match. -/
def replaceMatches (find : List Char → Option (ℕ × List Char)) : ℕ → List Char → List Char
  | _, [] => []
  | skip + 1, _ :: chars => replaceMatches find skip chars
  | 0, char :: chars =>
      match find (char :: chars) with
      | some (length, replacement) => replacement ++ replaceMatches find (length - 1) chars
      | none => char :: replaceMatches find 0 chars

/-- `replace(pattern, "")`. -/
def removeAll (pattern text : String) : String :=
  String.ofList (replaceMatches (fun chars =>
    if pattern.toList.isPrefixOf chars then some (pattern.toList.length, []) else none) 0
      text.toList)

/-- The pieces of a split are made of the elements of the list that do not split it. -/
theorem mem_of_mem_splitOnP {α : Type} {p : α → Bool} {xs piece : List α} {x : α}
    (isPiece : piece ∈ xs.splitOnP p) (member : x ∈ piece) : x ∈ xs ∧ p x = false := by
  induction xs generalizing piece with
  | nil =>
      rw [List.splitOnP_nil, List.mem_singleton] at isPiece
      rw [isPiece] at member
      cases member
  | cons first xs ih =>
      have later {piece : List α} (isPiece : piece ∈ xs.splitOnP p) (member : x ∈ piece) :
          x ∈ first :: xs ∧ p x = false :=
        (ih isPiece member).imp (List.mem_cons_of_mem _) id
      rw [List.splitOnP_cons_eq_if_modifyHead] at isPiece
      split at isPiece
      · rcases List.mem_cons.mp isPiece with rfl | isLater
        · cases member
        · exact later isLater member
      · rename_i inside
        rcases List.exists_cons_of_ne_nil (List.splitOnP_ne_nil p xs) with ⟨head, pieces, split⟩
        rw [split] at later
        rw [split, List.modifyHead_cons] at isPiece
        rcases List.mem_cons.mp isPiece with rfl | isLater
        · rcases List.mem_cons.mp member with rfl | inHead
          · exact ⟨List.mem_cons_self, Bool.eq_false_iff.mpr inside⟩
          · exact later List.mem_cons_self inHead
        · exact later (List.mem_cons_of_mem _ isLater) member

end Characters

section Integers

def wrapI64 (value : ℤ) : ℤ :=
  (value + 9223372036854775808) % 18446744073709551616 - 9223372036854775808

/-- A cast from floating point saturates. -/
def saturateI64 (value : ℤ) : ℤ :=
  max (-9223372036854775808) (min value 9223372036854775807)

/-- `round`, half away from zero. -/
def roundHalfAway (value : ℚ) : ℤ :=
  if 0 ≤ value then ⌊value + 1 / 2⌋ else ⌈value - 1 / 2⌉

/-- The cast of a signed to an unsigned number. -/
def asU64 (value : ℤ) : ℕ := (value % 18446744073709551616).toNat

theorem wrapI64_of_fits {value : ℤ} (lower : -9223372036854775808 ≤ value)
    (upper : value < 9223372036854775808) : wrapI64 value = value := by
  rw [wrapI64]
  omega

theorem asU64_of_nonneg {value : ℤ} (lower : 0 ≤ value) (upper : value < 9223372036854775808) :
    (asU64 value : ℤ) = value := by
  rw [asU64]
  omega

end Integers

end Batchalign.Asr
