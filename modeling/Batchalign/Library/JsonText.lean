import Mathlib

/-!
# The text of a flat JSON object

`dumps` writes an object of texts, natural numbers and nulls on one line of printable ASCII
characters: what lies outside is escaped, above the basic plane as a pair of surrogates. `loads`
reads such objects with blanks between their tokens. It reads back what `dumps` wrote, and a line
break never occurs in that.
-/

namespace JsonText

section Definitions

inductive Scalar where
  | null
  | number (value : ℕ)
  | text (value : String)
deriving DecidableEq, Repr

abbrev Fields := List (String × Scalar)

/-- A unit of UTF-16 as an escape of four digits. -/
def unit (code : ℕ) : List Char :=
  ['\\', 'u', Nat.digitChar (code / 4096 % 16), Nat.digitChar (code / 256 % 16),
    Nat.digitChar (code / 16 % 16), Nat.digitChar (code % 16)]

def isPrintable (char : Char) : Bool := 32 ≤ char.toNat && char.toNat ≤ 126

def escape (char : Char) : List Char :=
  if char = '"' then ['\\', '"']
  else if char = '\\' then ['\\', '\\']
  else if char = '\n' then ['\\', 'n']
  else if char = '\r' then ['\\', 'r']
  else if char = '\t' then ['\\', 't']
  else if char = '\x0c' then ['\\', 'f']
  else if char = '\x08' then ['\\', 'b']
  else if isPrintable char then [char]
  else if char.toNat < 0x10000 then unit char.toNat
  else
    unit (0xD800 + (char.toNat - 0x10000) / 0x400) ++ unit (0xDC00 + (char.toNat - 0x10000) % 0x400)

def dumpsText (text : String) : List Char := '"' :: text.toList.flatMap escape ++ ['"']

def dumpsScalar : Scalar → List Char
  | .null => "null".toList
  | .number value => Nat.toDigits 10 value
  | .text value => dumpsText value

def dumpsMember (member : String × Scalar) : List Char :=
  dumpsText member.1 ++ ": ".toList ++ dumpsScalar member.2

def dumps (fields : Fields) : List Char :=
  '{' :: (", ".toList).intercalate (fields.map dumpsMember) ++ ['}']

/-- The value of a digit to base 16, in either case. -/
def hexValue (char : Char) : Option ℕ :=
  if char.isDigit then some (char.toNat - 48)
  else if 'a' ≤ char ∧ char ≤ 'f' then some (char.toNat - 87)
  else if 'A' ≤ char ∧ char ≤ 'F' then some (char.toNat - 55)
  else none

def hexCode (first second third fourth : Char) : Option ℕ := do
  let first ← hexValue first
  let second ← hexValue second
  let third ← hexValue third
  let fourth ← hexValue fourth
  return ((first * 16 + second) * 16 + third) * 16 + fourth

def simpleEscape : Char → Option Char
  | '"' => some '"'
  | '\\' => some '\\'
  | '/' => some '/'
  | 'b' => some '\x08'
  | 'f' => some '\x0c'
  | 'n' => some '\n'
  | 'r' => some '\r'
  | 't' => some '\t'
  | _ => none

def putFirst (char : Char) (read : List Char × List Char) : List Char × List Char :=
  (char :: read.1, read.2)

/-- The rest of a text, after its first quote. A surrogate without its other half is no character
and is refused. -/
def readText : List Char → Option (List Char × List Char)
  | [] => none
  | '"' :: rest => some ([], rest)
  | '\\' :: 'u' :: first :: second :: third :: fourth :: rest =>
      match hexCode first second third fourth with
      | none => none
      | some code =>
          if 0xD800 ≤ code ∧ code < 0xDC00 then
            match rest with
            | '\\' :: 'u' :: first :: second :: third :: fourth :: rest =>
                (hexCode first second third fourth).bind fun low =>
                  if 0xDC00 ≤ low ∧ low < 0xE000 then
                    (readText rest).map
                      (putFirst (.ofNat (0x10000 + (code - 0xD800) * 0x400 + (low - 0xDC00))))
                  else none
            | _ => none
          else if 0xDC00 ≤ code ∧ code < 0xE000 then none
          else (readText rest).map (putFirst (.ofNat code))
  | '\\' :: char :: rest =>
      match simpleEscape char with
      | none => none
      | some char => (readText rest).map (putFirst char)
  | char :: rest => if char.toNat < 32 then none else (readText rest).map (putFirst char)

def isBlank (char : Char) : Bool := char = ' ' || char = '\t' || char = '\n' || char = '\r'

def skip (chars : List Char) : List Char := chars.dropWhile isBlank

/-- A number starts with another digit than zero, or is zero. -/
def readNumber : List Char → Option (ℕ × List Char)
  | '0' :: rest => some (0, rest)
  | chars =>
      let digits := chars.takeWhile Char.isDigit
      if digits = [] then none
      else some (Nat.ofDigitChars 10 digits 0, chars.dropWhile Char.isDigit)

def readScalar : List Char → Option (Scalar × List Char)
  | 'n' :: 'u' :: 'l' :: 'l' :: rest => some (.null, rest)
  | '"' :: rest => (readText rest).map fun read => (.text (.ofList read.1), read.2)
  | chars => (readNumber chars).map fun read => (.number read.1, read.2)

def readMember : List Char → Option ((String × Scalar) × List Char)
  | '"' :: rest => do
      let (key, rest) ← readText rest
      match skip rest with
      | ':' :: rest =>
          let (value, rest) ← readScalar (skip rest)
          return ((.ofList key, value), skip rest)
      | _ => none
  | _ => none

def readMembers : ℕ → List Char → Option (Fields × List Char)
  | 0, _ => none
  | fuel + 1, chars =>
      match readMember chars with
      | none => none
      | some (member, ',' :: rest) =>
          (readMembers fuel (skip rest)).map fun read => (member :: read.1, read.2)
      | some (member, '}' :: rest) => some ([member], rest)
      | some _ => none

def readObject (chars : List Char) : Option (Fields × List Char) :=
  match skip chars with
  | '{' :: rest =>
      match skip rest with
      | '}' :: rest => some ([], rest)
      | rest => readMembers rest.length rest
  | _ => none

/-- The fields of an object, and nothing behind it. -/
def loads (chars : List Char) : Option Fields :=
  match readObject chars with
  | some (fields, rest) => if skip rest = [] then some fields else none
  | none => none

end Definitions

section Escapes

variable {char : Char} {rest : List Char} {code : ℕ}

theorem hexValue_digitChar (isDigit : code < 16) : hexValue (Nat.digitChar code) = some code := by
  have all : ∀ digit < 16, hexValue (Nat.digitChar digit) = some digit := by decide
  exact all code isDigit

theorem hexCode_unit (small : code < 0x10000) :
    hexCode (Nat.digitChar (code / 4096 % 16)) (Nat.digitChar (code / 256 % 16))
      (Nat.digitChar (code / 16 % 16)) (Nat.digitChar (code % 16)) = some code := by
  have digit (place : ℕ) := hexValue_digitChar (Nat.mod_lt place (show 0 < 16 by decide))
  simp only [hexCode, digit, Option.bind_eq_bind, Option.bind_some, Option.pure_def,
    Option.some.injEq]
  omega

/-- A character outside the basic plane is read from its pair of surrogates. -/
theorem readText_pair (high : 0x10000 ≤ char.toNat) :
    readText (unit (0xD800 + (char.toNat - 0x10000) / 0x400) ++
      (unit (0xDC00 + (char.toNat - 0x10000) % 0x400) ++ rest)) =
        (readText rest).map (putFirst char) := by
  have inside : char.toNat < 0x110000 := by
    rcases char.valid with small | large
    · exact small.trans (by decide)
    · exact large.2
  simp only [unit, List.cons_append, List.nil_append]
  rw [readText, hexCode_unit (by omega)]
  dsimp only
  rw [if_pos (by omega)]
  show (hexCode _ _ _ _).bind _ = _
  rw [hexCode_unit (by omega), Option.bind_some, if_pos (by omega)]
  have same : 0x10000 + (0xD800 + (char.toNat - 0x10000) / 0x400 - 0xD800) * 0x400 +
      (0xDC00 + (char.toNat - 0x10000) % 0x400 - 0xDC00) = char.toNat := by omega
  rw [same, Char.ofNat_toNat]

theorem readText_unit (small : char.toNat < 0x10000) :
    readText (unit char.toNat ++ rest) = (readText rest).map (putFirst char) := by
  have plain : ¬ (0xD800 ≤ char.toNat ∧ char.toNat < 0xE000) := by
    have valid : char.toNat < 0xD800 ∨ 0xDFFF < char.toNat ∧ char.toNat < 0x110000 := char.valid
    omega
  simp only [unit, List.cons_append, List.nil_append]
  rw [readText, hexCode_unit small]
  dsimp only
  rw [if_neg (by omega), if_neg (by omega), Char.ofNat_toNat]

/-- A character is read back from its escape. -/
theorem readText_escape :
    readText (escape char ++ rest) = (readText rest).map (putFirst char) := by
  unfold escape
  split_ifs with quote slash newline return_ tab formFeed backspace printable small
  · subst quote
    rfl
  · subst slash
    rfl
  · subst newline
    rfl
  · subst return_
    rfl
  · subst tab
    rfl
  · subst formFeed
    rfl
  · subst backspace
    rfl
  · have visible : ¬ char.toNat < 32 := by
      simp only [isPrintable, Bool.and_eq_true, decide_eq_true_eq] at printable
      omega
    rw [List.singleton_append, readText.eq_def]
    split
    · next empty => cases empty
    · next same =>
        cases same
        exact absurd rfl quote
    · next same =>
        cases same
        exact absurd rfl slash
    · next same =>
        cases same
        exact absurd rfl slash
    · next same =>
        cases same
        exact if_neg visible
  · exact readText_unit small
  · rw [List.append_assoc]
    exact readText_pair (by omega)

theorem readText_flatMap (text rest : List Char) :
    readText (text.flatMap escape ++ '"' :: rest) = some (text, rest) := by
  induction text with
  | nil => rfl
  | cons char text ih =>
      rw [List.flatMap_cons, List.append_assoc, readText_escape, ih]
      rfl

theorem isPrintable_digitChar (isDigit : code < 16) : isPrintable (Nat.digitChar code) = true := by
  have all : ∀ digit < 16, isPrintable (Nat.digitChar digit) = true := by decide
  exact all code isDigit

theorem isPrintable_unit (code : ℕ) : ∀ char ∈ unit code, isPrintable char = true := by
  have digit (place : ℕ) := isPrintable_digitChar (Nat.mod_lt place (show 0 < 16 by decide))
  intro char isChar
  simp only [unit, List.mem_cons, List.not_mem_nil, or_false] at isChar
  rcases isChar with rfl | rfl | rfl | rfl | rfl | rfl
  · rfl
  · rfl
  · exact digit _
  · exact digit _
  · exact digit _
  · exact digit _

theorem isPrintable_escape (char : Char) : ∀ other ∈ escape char, isPrintable other = true := by
  unfold escape
  split_ifs with quote slash newline return_ tab formFeed backspace printable small
  · simp [isPrintable]
  · simp [isPrintable]
  · simp [isPrintable]
  · simp [isPrintable]
  · simp [isPrintable]
  · simp [isPrintable]
  · simp [isPrintable]
  · simpa using printable
  · exact isPrintable_unit _
  · intro other isOther
    rcases List.mem_append.mp isOther with high | low
    · exact isPrintable_unit _ other high
    · exact isPrintable_unit _ other low

end Escapes

section Lines

theorem isPrintable_dumpsText (text : String) :
    ∀ char ∈ dumpsText text, isPrintable char = true := by
  intro char isChar
  simp only [dumpsText, List.cons_append, List.mem_cons, List.mem_append, List.mem_flatMap,
    List.not_mem_nil, or_false] at isChar
  rcases isChar with rfl | ⟨source, _, isChar⟩ | rfl
  · rfl
  · exact isPrintable_escape source char isChar
  · rfl

theorem isPrintable_of_isDigit {char : Char} (isDigit : char.isDigit = true) :
    isPrintable char = true := by
  rw [Char.isDigit_iff_toNat] at isDigit
  simp only [isPrintable, Bool.and_eq_true, decide_eq_true_eq]
  have zero : '0'.toNat = 48 := rfl
  have nine : '9'.toNat = 57 := rfl
  omega

theorem isPrintable_dumpsScalar :
    (scalar : Scalar) → ∀ char ∈ dumpsScalar scalar, isPrintable char = true
  | .null => by simp [dumpsScalar, isPrintable]
  | .number value => fun char isChar =>
      isPrintable_of_isDigit (Nat.isDigit_of_mem_toDigits (by decide) le_rfl isChar)
  | .text value => isPrintable_dumpsText value

/-- An object is one line of printable ASCII. -/
theorem isPrintable_dumps (fields : Fields) : ∀ char ∈ dumps fields, isPrintable char = true := by
  have member (entry : String × Scalar) : ∀ char ∈ dumpsMember entry, isPrintable char = true := by
    intro char isChar
    simp only [dumpsMember, List.mem_append] at isChar
    rcases isChar with (isKey | isColon) | isValue
    · exact isPrintable_dumpsText _ char isKey
    · revert char
      simp [isPrintable]
    · exact isPrintable_dumpsScalar _ char isValue
  intro char isChar
  simp only [dumps, List.cons_append, List.mem_cons, List.mem_append, List.not_mem_nil,
    or_false] at isChar
  rcases isChar with rfl | isChar | rfl
  · rfl
  · induction fields with
    | nil => cases isChar
    | cons entry fields ih =>
        cases fields with
        | nil => exact member entry char (by simpa [List.intercalate] using isChar)
        | cons next fields =>
            rw [List.map_cons, List.map_cons, List.intercalate_cons_cons] at isChar
            simp only [List.mem_append] at isChar
            rcases isChar with (isEntry | isComma) | later
            · exact member entry char isEntry
            · clear ih
              revert char
              simp [isPrintable]
            · exact ih later
  · rfl

theorem newline_notMem_dumps (fields : Fields) : '\n' ∉ dumps fields := by
  intro isChar
  exact absurd (isPrintable_dumps fields _ isChar) (by decide)

end Lines

section RoundTrip

variable {rest : List Char} {scalar : Scalar} {fields : Fields}

/-- Nothing that would go on with a number. -/
def Stops (rest : List Char) : Prop := ∀ char ∈ rest.head?, char.isDigit = false

theorem toDigits_head {value : ℕ} (positive : 0 < value) :
    ∃ first digits, Nat.toDigits 10 value = first :: digits ∧ first ≠ '0' := by
  induction value using Nat.strong_induction_on with
  | _ value ih =>
      by_cases small : value < 10
      · refine ⟨value.digitChar, [], Nat.toDigits_of_lt_base small, ?_⟩
        rw [ne_eq, Nat.digitChar_eq_zero]
        exact positive.ne'
      · rcases ih (value / 10) (by omega) (by omega) with ⟨first, digits, whole, other⟩
        refine ⟨first, digits ++ [(value % 10).digitChar], ?_, other⟩
        rw [Nat.toDigits_of_base_le (by decide) (by omega), whole, List.cons_append]

theorem readNumber_toDigits (value : ℕ) (stops : Stops rest) :
    readNumber (Nat.toDigits 10 value ++ rest) = some (value, rest) := by
  by_cases zero : value = 0
  · subst zero
    rfl
  · rcases toDigits_head (Nat.pos_of_ne_zero zero) with ⟨first, digits, whole, other⟩
    have areDigits : ∀ char ∈ Nat.toDigits 10 value, char.isDigit = true :=
      fun char isChar => Nat.isDigit_of_mem_toDigits (by decide) le_rfl isChar
    have after : rest.takeWhile Char.isDigit = [] ∧ rest.dropWhile Char.isDigit = rest := by
      cases rest with
      | nil => exact ⟨rfl, rfl⟩
      | cons char rest =>
          have isOther : char.isDigit = false := stops char rfl
          simp [isOther]
    have taken :
        (Nat.toDigits 10 value ++ rest).takeWhile Char.isDigit = Nat.toDigits 10 value := by
      rw [List.takeWhile_append_of_pos areDigits, after.1, List.append_nil]
    have left : (Nat.toDigits 10 value ++ rest).dropWhile Char.isDigit = rest := by
      rw [List.dropWhile_append_of_pos areDigits, after.2]
    have start : Nat.toDigits 10 value ++ rest = first :: (digits ++ rest) := by
      rw [whole, List.cons_append]
    rw [readNumber.eq_def]
    split
    · next isZero =>
        rw [start] at isZero
        exact absurd (List.cons.inj isZero).1 other
    · dsimp only
      rw [taken, left, if_neg Nat.toDigits_ne_nil, Nat.ofDigitChars_ten_toDigits]

theorem dumpsText_append (text : String) (rest : List Char) :
    dumpsText text ++ rest = '"' :: (text.toList.flatMap escape ++ '"' :: rest) := by
  simp [dumpsText]

theorem readScalar_dumpsScalar (stops : Stops rest) :
    readScalar (dumpsScalar scalar ++ rest) = some (scalar, rest) := by
  cases scalar with
  | null => rfl
  | text value =>
      rw [dumpsScalar, dumpsText_append, readScalar, readText_flatMap, Option.map_some,
        String.ofList_toList]
  | number value =>
      have first : ∀ char ∈ (Nat.toDigits 10 value).head?, char.isDigit = true := by
        intro char isFirst
        exact Nat.isDigit_of_mem_toDigits (by decide) le_rfl (List.mem_of_mem_head? isFirst)
      have number := readNumber_toDigits value stops
      rw [dumpsScalar]
      cases digits : Nat.toDigits 10 value with
      | nil => exact absurd digits Nat.toDigits_ne_nil
      | cons char digits' =>
          rw [digits] at first number
          have isDigit := first char rfl
          rw [List.cons_append] at number ⊢
          rw [readScalar.eq_def]
          split
          · next same =>
              rw [(List.cons.inj same).1] at isDigit
              cases isDigit
          · next same =>
              rw [(List.cons.inj same).1] at isDigit
              cases isDigit
          · rw [number]
            rfl

theorem skip_cons {char : Char} (visible : isBlank char = false) :
    skip (char :: rest) = char :: rest := by
  rw [skip, List.dropWhile_cons_of_neg (by simp [visible])]

/-- A member is read back when a comma or a brace follows. -/
theorem readMember_dumpsMember (member : String × Scalar) {mark : Char}
    (isMark : mark = ',' ∨ mark = '}') :
    readMember (dumpsMember member ++ mark :: rest) = some (member, mark :: rest) := by
  rcases member with ⟨key, value⟩
  have stops : Stops (mark :: rest) := by
    rintro char same
    rcases isMark with rfl | rfl
    · cases same
      rfl
    · cases same
      rfl
  have visible : isBlank mark = false := by
    rcases isMark with rfl | rfl
    · rfl
    · rfl
  have value_ : skip (" ".toList ++ (dumpsScalar value ++ mark :: rest)) =
      dumpsScalar value ++ mark :: rest := by
    have front : ∃ char chars, dumpsScalar value ++ mark :: rest = char :: chars ∧
        isBlank char = false := by
      cases value with
      | null => exact ⟨_, _, rfl, rfl⟩
      | text value => exact ⟨_, _, rfl, rfl⟩
      | number value =>
          rw [dumpsScalar]
          cases digits : Nat.toDigits 10 value with
          | nil => exact absurd digits Nat.toDigits_ne_nil
          | cons char digits' =>
              refine ⟨char, _, rfl, ?_⟩
              have isDigit : char.isDigit = true :=
                Nat.isDigit_of_mem_toDigits (by decide) le_rfl (digits ▸ List.mem_cons_self)
              by_contra blank
              simp only [isBlank, Bool.not_eq_false, Bool.or_eq_true, decide_eq_true_eq] at blank
              rcases blank with ((rfl | rfl) | rfl) | rfl <;> cases isDigit
    rcases front with ⟨char, chars, whole, other⟩
    rw [whole]
    show (' ' :: char :: chars).dropWhile isBlank = char :: chars
    rw [List.dropWhile_cons_of_pos rfl]
    exact skip_cons other
  have whole : dumpsMember (key, value) ++ mark :: rest =
      '"' :: (key.toList.flatMap escape ++ '"' :: ':' ::
        (" ".toList ++ (dumpsScalar value ++ mark :: rest))) := by
    simp [dumpsMember, dumpsText]
  have colon : skip (':' :: (" ".toList ++ (dumpsScalar value ++ mark :: rest))) =
      ':' :: (" ".toList ++ (dumpsScalar value ++ mark :: rest)) := skip_cons rfl
  simp only [whole, readMember, readText_flatMap, Option.bind_eq_bind, Option.bind_some, colon,
    value_, readScalar_dumpsScalar stops, skip_cons visible, String.ofList_toList, Option.pure_def]

theorem readMembers_dumps (fuel : ℕ) (rest : List Char) (some_ : fields ≠ [])
    (enough : fields.length ≤ fuel) :
    readMembers fuel ((", ".toList).intercalate (fields.map dumpsMember) ++ '}' :: rest) =
      some (fields, rest) := by
  induction fields generalizing fuel with
  | nil => exact absurd rfl some_
  | cons member fields ih =>
      cases fuel with
      | zero => simp at enough
      | succ fuel =>
          cases fields with
          | nil =>
              have single : (", ".toList).intercalate ([member].map dumpsMember) =
                  dumpsMember member := by simp [List.intercalate]
              rw [single, readMembers, readMember_dumpsMember member (.inr rfl)]
              rfl
          | cons next fields =>
              have later := ih fuel (List.cons_ne_nil _ _) (by simpa using enough)
              have visible : ∃ chars, (", ".toList).intercalate
                  ((next :: fields).map dumpsMember) ++ '}' :: rest = '"' :: chars := by
                cases fields with
                | nil => exact ⟨_, by simp [List.intercalate, dumpsMember, dumpsText]; rfl⟩
                | cons last fields =>
                    rw [List.map_cons, List.map_cons, List.intercalate_cons_cons]
                    exact ⟨_, by simp [dumpsMember, dumpsText]; rfl⟩
              rcases visible with ⟨chars, start⟩
              rw [List.map_cons, List.map_cons, List.intercalate_cons_cons, ← List.map_cons]
              have whole : dumpsMember member ++ ", ".toList ++
                  (", ".toList).intercalate ((next :: fields).map dumpsMember) ++ '}' :: rest =
                    dumpsMember member ++ ',' :: ' ' :: '"' :: chars := by
                rw [← start]
                simp
              rw [whole, readMembers, readMember_dumpsMember member (.inl rfl)]
              have blank : skip (' ' :: '"' :: chars) = '"' :: chars := rfl
              show (readMembers fuel (skip (' ' :: '"' :: chars))).map _ = _
              rw [blank, ← start, later]
              rfl

theorem length_le_length_dumps (fields : Fields) :
    fields.length ≤ ((", ".toList).intercalate (fields.map dumpsMember)).length := by
  induction fields with
  | nil => exact Nat.zero_le _
  | cons member fields ih =>
      have filled : 1 ≤ (dumpsMember member).length := by simp [dumpsMember, dumpsText]
      cases fields with
      | nil => simpa [List.intercalate] using filled
      | cons next fields =>
          rw [List.map_cons, List.map_cons, List.intercalate_cons_cons, ← List.map_cons,
            List.length_append, List.length_append, List.length_cons]
          omega

/-- An object is read back from its text. -/
theorem loads_dumps (fields : Fields) : loads (dumps fields) = some fields := by
  cases fields with
  | nil => rfl
  | cons member fields =>
      have enough := length_le_length_dumps (member :: fields)
      have read := readMembers_dumps
        ((", ".toList).intercalate ((member :: fields).map dumpsMember) ++ ['}']).length []
        (List.cons_ne_nil member fields) (by rw [List.length_append]; omega)
      have start : ∃ chars,
          (", ".toList).intercalate ((member :: fields).map dumpsMember) ++ ['}'] =
            '"' :: chars := by
        cases fields with
        | nil => exact ⟨_, by simp [List.intercalate, dumpsMember, dumpsText]; rfl⟩
        | cons next fields =>
            rw [List.map_cons, List.map_cons, List.intercalate_cons_cons]
            exact ⟨_, by simp [dumpsMember, dumpsText]; rfl⟩
      rcases start with ⟨chars, start⟩
      rw [start] at read
      have object : readObject (dumps (member :: fields)) = some (member :: fields, []) := by
        rw [dumps, List.cons_append, start]
        exact read
      rw [loads, object]
      rfl

end RoundTrip

end JsonText
