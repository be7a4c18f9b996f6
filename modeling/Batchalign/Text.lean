import Batchalign.Errors

/-!
# Text

The text operations of the standard library that the stages use, on lists of
characters where they split or trim. The case tables of Unicode and the rounding
of floating-point numbers are parameters.
-/

namespace Batchalign

/-- The full case mappings of Unicode. -/
class UnicodeCase where
  toLowercase : String → String
  toUppercase : String → String

/-- Double-precision numbers stand for their exact values. `round` takes the exact result
of one operation to the nearest double, `format4` is the text of `{:.4}`. -/
class Float64 where
  round : ℚ → ℚ
  format4 : ℚ → String

/-- The `White_Space` property. -/
def isWhitespace (c : Char) : Bool :=
  let code := c.toNat
  (9 ≤ code && code ≤ 13) || code == 0x20 || code == 0x85 || code == 0xA0 || code == 0x1680 ||
    (0x2000 ≤ code && code ≤ 0x200A) || code == 0x2028 || code == 0x2029 || code == 0x202F ||
    code == 0x205F || code == 0x3000

def trim (text : String) : String :=
  String.ofList ((text.toList.dropWhile isWhitespace).rdropWhile isWhitespace)

/-- `split_whitespace`. -/
def splitWhitespace (text : String) : List String :=
  ((text.toList.splitOnP isWhitespace).filter (! ·.isEmpty)).map String.ofList

/-- `split` at a character. -/
def splitAt (separator : Char) (text : String) : List String :=
  (text.toList.splitOn separator).map String.ofList

/-- `strip_suffix`. -/
def stripSuffix (suffix text : String) : Option String :=
  if suffix.toList.isSuffixOf text.toList then
    some (String.ofList (text.toList.take (text.toList.length - suffix.toList.length)))
  else none

end Batchalign
