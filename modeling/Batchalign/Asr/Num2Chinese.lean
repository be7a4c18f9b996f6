import Mathlib
import Batchalign.Library.Positional

/-!
# Chinese numerals

`num2chinese` writes the decimal digits of a number in groups of four from the right. A digit
stands in front of the ten, hundred or thousand of its place, and a group in front of its
myriad mark; zero digits and zero groups leave at most a zero character behind. An index that
is out of range panics, so the rendering is an `Option`.

A numeral is read back by place value, without a look at its zero characters. The rendering
never fails and is read as the number it was made from (`placeValue_num2chinese`).
-/

namespace Batchalign.Asr

open Positional

inductive ChineseScript where
  | simplified
  | traditional
  deriving DecidableEq

section Rendering

def cBasic : List Char := ['零', '一', '二', '三', '四', '五', '六', '七', '八', '九']

def cUnit1 : List Char := ['十', '百', '千']

def cUnit2 : ChineseScript → List Char
  | .simplified => ['万', '亿', '兆', '京', '垓', '秭', '穰', '沟', '涧', '正', '载']
  | .traditional => ['萬', '億', '兆', '京', '垓', '秭', '穰', '溝', '澗', '正', '載']

/-- Groups of four, of digits whose number is a multiple of four. -/
def fours : List ℕ → List (List ℕ)
  | first :: second :: third :: fourth :: rest => [first, second, third, fourth] :: fours rest
  | _ => []

/-- The groups of a number, the first one shorter where the length asks for it. -/
def digitGroups (digits : List ℕ) : List (List ℕ) :=
  let remainder := digits.length % 4
  (if 0 < remainder then [digits.take remainder] else []) ++ fours (digits.drop remainder)

/-- A digit that is not zero at a position from the right, with its unit. A ten that opens the
numeral has no digit. -/
def digitText (digit position : ℕ) (opens : Bool) : Option (List Char) :=
  match position with
  | 0 => cBasic[digit]?.map ([·])
  | above + 1 =>
      if above = 0 ∧ digit = 1 ∧ opens then cUnit1[0]?.map ([·])
      else do
        let basic ← cBasic[digit]?
        let unit ← cUnit1[above]?
        some [basic, unit]

/-- The zero character of a run of zeros. -/
def zeroText (zeroRun : Bool) : List Char := if zeroRun then ['零'] else []

/-- The digits of a group. `written` says whether parts of the group have been written, `zeroRun`
whether zeros have been skipped in front of the next digit. -/
def convertDigits (hasPreceding : Bool) : Bool → Bool → List ℕ → Option (List Char)
  | _, _, [] => some []
  | written, zeroRun, digit :: rest =>
      if digit = 0 then
        convertDigits hasPreceding written (zeroRun || hasPreceding || written) rest
      else do
        let opens := ! (written || zeroRun) && ! hasPreceding
        let text ← digitText digit rest.length opens
        let later ← convertDigits hasPreceding true false rest
        some (zeroText zeroRun ++ text ++ later)

def convertGroup (digits : List ℕ) (hasPreceding : Bool) : Option (List Char) :=
  convertDigits hasPreceding false false digits

/-- The large unit of a group with `below` groups behind it. -/
def largeUnit (script : ChineseScript) (below : ℕ) : Option (List Char) :=
  if 0 < below then (cUnit2 script)[below - 1]?.map ([·]) else some []

/-- The groups of a number. `written` says whether parts have been written, `wasZero` whether the
group before was zero. -/
def convertGroups (script : ChineseScript) : Bool → Bool → List (List ℕ) → Option (List Char)
  | _, _, [] => some []
  | written, wasZero, group :: rest =>
      if horner 10 group = 0 then convertGroups script written (wasZero || written) rest
      else do
        let text ← convertGroup group (written || wasZero)
        let unit ← largeUnit script rest.length
        let later ← convertGroups script true false rest
        some (zeroText wasZero ++ text ++ unit ++ later)

def num2chinese (num : UInt64) (script : ChineseScript) : Option String :=
  if num = 0 then some "零"
  else (convertGroups script false false (digitGroups (digitsOf 10 num.toNat))).map String.ofList

theorem convertDigits_nonzero {hasPreceding written zeroRun : Bool} {digit : ℕ} {rest : List ℕ}
    (nonzero : digit ≠ 0) {chars : List Char} :
    convertDigits hasPreceding written zeroRun (digit :: rest) = some chars ↔
      ∃ text, digitText digit rest.length (! (written || zeroRun) && ! hasPreceding) = some text ∧
        ∃ later, convertDigits hasPreceding true false rest = some later ∧
          zeroText zeroRun ++ (text ++ later) = chars := by
  rw [convertDigits, if_neg nonzero]
  simp only [Option.bind_eq_bind, Option.bind_eq_some_iff, Option.some_inj, List.append_assoc]

theorem convertGroups_nonzero {script : ChineseScript} {written wasZero : Bool} {group : List ℕ}
    {rest : List (List ℕ)} (nonzero : horner 10 group ≠ 0) {chars : List Char} :
    convertGroups script written wasZero (group :: rest) = some chars ↔
      ∃ text, convertGroup group (written || wasZero) = some text ∧
        ∃ unit, largeUnit script rest.length = some unit ∧
          ∃ later, convertGroups script true false rest = some later ∧
            zeroText wasZero ++ (text ++ (unit ++ later)) = chars := by
  rw [convertGroups, if_neg nonzero]
  simp only [Option.bind_eq_bind, Option.bind_eq_some_iff, Option.some_inj, List.append_assoc]

end Rendering

section Groups

theorem fours_spec (digits : List ℕ) (whole : digits.length % 4 = 0) :
    (fours digits).flatten = digits ∧ ∀ group ∈ fours digits, group.length = 4 := by
  induction digits using fours.induct with
  | case1 first second third fourth rest ih =>
      have shorter : rest.length % 4 = 0 := by
        simp only [List.length_cons] at whole
        omega
      rcases ih shorter with ⟨flat, lengths⟩
      rw [fours]
      exact ⟨by rw [List.flatten_cons, flat]; rfl, List.forall_mem_cons.mpr ⟨rfl, lengths⟩⟩
  | case2 digits short =>
      match digits, short, whole with
      | [], _, _ => simp [fours]
      | [_], _, whole => simp at whole
      | [_, _], _, whole => simp at whole
      | [_, _, _], _, whole => simp at whole
      | first :: second :: third :: fourth :: rest, short, _ =>
          exact absurd rfl (short first second third fourth rest)

/-- A number has a first group of at most four digits and then groups of four. -/
theorem digitGroups_spec {digits : List ℕ} (nonempty : digits ≠ []) :
    ∃ group groups, digitGroups digits = group :: groups ∧ group ≠ [] ∧ group.length ≤ 4 ∧
      (∀ later ∈ groups, later.length = 4) ∧ (group :: groups).flatten = digits := by
  have whole : (digits.drop (digits.length % 4)).length % 4 = 0 := by
    rw [List.length_drop]
    omega
  rcases fours_spec _ whole with ⟨flat, lengths⟩
  by_cases remainder : 0 < digits.length % 4
  · refine ⟨digits.take (digits.length % 4), fours (digits.drop (digits.length % 4)), ?_, ?_, ?_,
      lengths, ?_⟩
    · simp [digitGroups, remainder]
    · simp [nonempty]
      omega
    · rw [List.length_take]
      omega
    · rw [List.flatten_cons, flat, List.take_append_drop]
  · have zero : digits.length % 4 = 0 := by omega
    rw [zero, List.drop_zero] at flat lengths
    have groups : digitGroups digits = fours digits := by simp [digitGroups, zero]
    rcases split : fours digits with _ | ⟨group, groups'⟩
    · rw [split] at flat
      exact absurd flat.symm nonempty
    · rw [split] at flat lengths
      rcases List.forall_mem_cons.mp lengths with ⟨first, rest⟩
      refine ⟨group, groups', by rw [groups, split], ?_, first.le, rest, flat⟩
      rintro rfl
      cases first

end Groups

section Reading

/-- What a character of a numeral stands for. -/
inductive NumeralMark where
  | zero
  | digit (value : ℕ)
  | unit (factor : ℕ)
  | myriad (factor : ℕ)
  deriving DecidableEq

def numeralMarks : List (Char × NumeralMark) :=
  [('零', .zero), ('一', .digit 1), ('二', .digit 2), ('三', .digit 3), ('四', .digit 4),
    ('五', .digit 5), ('六', .digit 6), ('七', .digit 7), ('八', .digit 8), ('九', .digit 9),
    ('十', .unit 10), ('百', .unit 100), ('千', .unit 1000),
    ('万', .myriad (10 ^ 4)), ('萬', .myriad (10 ^ 4)), ('亿', .myriad (10 ^ 8)),
    ('億', .myriad (10 ^ 8)), ('兆', .myriad (10 ^ 12)), ('京', .myriad (10 ^ 16))]

def numeralMark (c : Char) : Option NumeralMark := numeralMarks.lookup c

/-- The closed groups, the open group, and a digit that waits for its unit. -/
structure Reading where
  total : ℕ
  group : ℕ
  digit : Option ℕ

/-- A digit multiplies the unit behind it, a bare ten counts as ten, and a myriad mark scales the
open group. -/
def Reading.next (reading : Reading) : NumeralMark → Option Reading
  | .zero => some reading
  | .digit value =>
      if reading.digit.isNone then some { reading with digit := some value } else none
  | .unit factor =>
      match reading.digit with
      | some value => some { reading with group := reading.group + value * factor, digit := none }
      | none => if factor = 10 then some { reading with group := reading.group + 10 } else none
  | .myriad factor =>
      some ⟨reading.total + (reading.group + reading.digit.getD 0) * factor, 0, none⟩

def Reading.open_ (reading : Reading) : ℕ := reading.group + reading.digit.getD 0

def readChars (reading : Reading) (chars : List Char) : Option Reading :=
  chars.foldlM (fun reading c => (numeralMark c).bind reading.next) reading

/-- The number of a numeral by place value. -/
def placeValue (text : String) : Option ℕ :=
  (readChars ⟨0, 0, none⟩ text.toList).map fun reading => reading.total + reading.open_

theorem readChars_append (reading : Reading) (left right : List Char) :
    readChars reading (left ++ right) =
      (readChars reading left).bind fun reading => readChars reading right :=
  List.foldlM_append

theorem readChars_zero (reading : Reading) (flag : Bool) (chars : List Char) :
    readChars reading (zeroText flag ++ chars) = readChars reading chars := by
  cases flag with
  | false => rfl
  | true => rfl

end Reading

section PlaceValue

/-- Reading has gone on inside of the open group, by a value. -/
structure Advanced (before after : Reading) (value : ℕ) : Prop where
  total : after.total = before.total
  opened : after.open_ = before.open_ + value

theorem numeralMark_cBasic : ∀ digit < 10, digit ≠ 0 →
    cBasic[digit]?.bind numeralMark = some (.digit digit) := by
  decide

theorem numeralMark_cUnit1 : ∀ above < 3,
    cUnit1[above]?.bind numeralMark = some (.unit (10 ^ (above + 1))) := by
  decide

theorem numeralMark_cUnit2 (script : ChineseScript) : ∀ above < 4,
    (cUnit2 script)[above]?.bind numeralMark = some (.myriad (10000 ^ (above + 1))) := by
  cases script <;> decide

/-- A digit that is not zero is written, and read with the weight of its place. -/
theorem digitText_advances {digit position : ℕ} (opens : Bool) (bounded : digit < 10)
    (nonzero : digit ≠ 0) (place : position < 4) {reading : Reading}
    (waiting : reading.digit = none) :
    ∃ text after, digitText digit position opens = some text ∧
      readChars reading text = some after ∧ Advanced reading after (digit * 10 ^ position) ∧
      (position ≠ 0 → after.digit = none) := by
  rcases Option.bind_eq_some_iff.mp (numeralMark_cBasic digit bounded nonzero) with
    ⟨basic, isBasic, basicMark⟩
  cases position with
  | zero =>
      refine ⟨[basic], { reading with digit := some digit }, ?_, ?_, ⟨rfl, ?_⟩, ?_⟩
      · simp [digitText, isBasic]
      · simp [readChars, basicMark, Reading.next, waiting]
      · simp [Reading.open_, waiting]
      · simp
  | succ above =>
      rcases Option.bind_eq_some_iff.mp (numeralMark_cUnit1 above (by omega)) with
        ⟨unit, isUnit, unitMark⟩
      by_cases bare : above = 0 ∧ digit = 1 ∧ opens
      · rcases bare with ⟨rfl, rfl, isOpen⟩
        refine ⟨[unit], { reading with group := reading.group + 10 }, ?_, ?_, ⟨rfl, ?_⟩, ?_⟩
        · simp [digitText, isOpen, isUnit]
        · simp [readChars, unitMark, Reading.next, waiting]
        · simp [Reading.open_, waiting]
        · simp [waiting]
      · refine ⟨[basic, unit],
          { reading with group := reading.group + digit * 10 ^ (above + 1), digit := none },
          ?_, ?_, ⟨rfl, ?_⟩, ?_⟩
        · rw [digitText, if_neg bare]
          simp [isBasic, isUnit]
        · simp [readChars, basicMark, unitMark, Reading.next, waiting]
        · simp [Reading.open_, waiting]
        · simp

/-- The rest of a group is written, and read as its digits. -/
theorem convertDigits_advances (hasPreceding written zeroRun : Bool) {digits : List ℕ}
    (bounded : ∀ digit ∈ digits, digit < 10) (short : digits.length ≤ 4) {reading : Reading}
    (waiting : reading.digit = none) :
    ∃ text after, convertDigits hasPreceding written zeroRun digits = some text ∧
      readChars reading text = some after ∧ Advanced reading after (horner 10 digits) := by
  induction digits generalizing written zeroRun reading with
  | nil => exact ⟨[], reading, rfl, rfl, rfl, rfl⟩
  | cons digit rest ih =>
      rcases List.forall_mem_cons.mp bounded with ⟨first, later⟩
      rw [List.length_cons] at short
      by_cases zero : digit = 0
      · rcases ih written (zeroRun || hasPreceding || written) later (by omega) waiting with
          ⟨text, after, made, isRead, advanced⟩
        refine ⟨text, after, ?_, isRead, ?_⟩
        · rw [convertDigits, if_pos zero, made]
        · rwa [horner_cons, zero, Nat.zero_mul, Nat.zero_add]
      · rcases digitText_advances (! (written || zeroRun) && ! hasPreceding) first zero
            (by omega : rest.length < 4) waiting with
          ⟨text, middle, isText, textRead, ⟨textTotal, textOpen⟩, free⟩
        rcases rest with _ | ⟨next, rest⟩
        · refine ⟨zeroText zeroRun ++ (text ++ []), middle, ?_, ?_, textTotal, ?_⟩
          · exact (convertDigits_nonzero zero).mpr ⟨text, isText, [], rfl, rfl⟩
          · rw [readChars_zero, List.append_nil, textRead]
          · simpa [horner_cons] using textOpen
        · rcases ih true false later (by omega) (free (by simp)) with
            ⟨more, after, made, isRead, ⟨total, opened⟩⟩
          refine ⟨zeroText zeroRun ++ (text ++ more), after, ?_, ?_, ?_, ?_⟩
          · exact (convertDigits_nonzero zero).mpr ⟨text, isText, more, made, rfl⟩
          · rw [readChars_zero, readChars_append, textRead, Option.bind_some, isRead]
          · rw [total, textTotal]
          · rw [opened, textOpen, horner_cons digit, Nat.add_assoc]

/-- The rest of the groups is written, and read as the number of the groups. -/
theorem convertGroups_reads (script : ChineseScript) (written wasZero : Bool)
    {groups : List (List ℕ)} (bounded : ∀ group ∈ groups, ∀ digit ∈ group, digit < 10)
    (short : ∀ group ∈ groups, group.length ≤ 4) (few : groups.length ≤ 5) (total : ℕ) :
    ∃ text after, convertGroups script written wasZero groups = some text ∧
      readChars ⟨total, 0, none⟩ text = some after ∧
      after.total + after.open_ = total + horner 10000 (groups.map (horner 10)) := by
  induction groups generalizing written wasZero total with
  | nil => exact ⟨[], ⟨total, 0, none⟩, rfl, rfl, rfl⟩
  | cons group rest ih =>
      rcases List.forall_mem_cons.mp bounded with ⟨firstBounded, restBounded⟩
      rcases List.forall_mem_cons.mp short with ⟨firstShort, restShort⟩
      rw [List.length_cons] at few
      rw [List.map_cons, horner_cons, List.length_map]
      by_cases zero : horner 10 group = 0
      · rcases ih written (wasZero || written) restBounded restShort (by omega) total with
          ⟨text, after, made, isRead, value⟩
        refine ⟨text, after, ?_, isRead, ?_⟩
        · rw [convertGroups, if_pos zero, made]
        · rw [value, zero, Nat.zero_mul, Nat.zero_add]
      · have waiting : (⟨total, 0, none⟩ : Reading).digit = none := rfl
        rcases convertDigits_advances (written || wasZero) false false firstBounded firstShort
            waiting with ⟨text, middle, isText, textRead, ⟨textTotal, textOpen⟩⟩
        have converted : convertGroup group (written || wasZero) = some text := isText
        have opened : middle.open_ = horner 10 group := by simpa [Reading.open_] using textOpen
        rcases rest with _ | ⟨next, rest⟩
        · refine ⟨zeroText wasZero ++ (text ++ ([] ++ [])), middle, ?_, ?_, ?_⟩
          · exact (convertGroups_nonzero zero).mpr ⟨text, converted, [], rfl, [], rfl, rfl⟩
          · rw [readChars_zero, List.append_nil, List.append_nil, textRead]
          · rw [textTotal, opened]
            simp
        · rcases Option.bind_eq_some_iff.mp (numeralMark_cUnit2 script rest.length
            (by simp only [List.length_cons] at few; omega)) with ⟨unit, isUnit, unitMark⟩
          rcases ih true false restBounded restShort (by omega)
              (total + horner 10 group * 10000 ^ (rest.length + 1)) with
            ⟨later, after, made, isRead, value⟩
          have unitRead : readChars middle [unit] =
              some ⟨total + horner 10 group * 10000 ^ (rest.length + 1), 0, none⟩ := by
            rw [← opened, Reading.open_]
            simp [readChars, unitMark, Reading.next, textTotal]
          refine ⟨zeroText wasZero ++ (text ++ ([unit] ++ later)), after, ?_, ?_, ?_⟩
          · have large : largeUnit script (next :: rest).length = some [unit] := by
              simp [largeUnit, isUnit]
            exact (convertGroups_nonzero zero).mpr
              ⟨text, converted, [unit], large, later, made, rfl⟩
          · rw [readChars_zero, readChars_append, textRead, Option.bind_some, readChars_append,
              unitRead, Option.bind_some, isRead]
          · rw [value, List.length_cons, Nat.add_assoc]

/-- A 64-bit number has at most five groups. -/
theorem digitGroups_num {num : UInt64} (positive : num ≠ 0) :
    ∃ group groups, digitGroups (digitsOf 10 num.toNat) = group :: groups ∧
      group ≠ [] ∧ group.length ≤ 4 ∧ (∀ later ∈ groups, later.length = 4) ∧
      (group :: groups).flatten = digitsOf 10 num.toNat ∧ (group :: groups).length ≤ 5 := by
  have nonzero : num.toNat ≠ 0 := by
    intro zero
    exact positive (UInt64.toNat_inj.mp zero)
  have nonempty : digitsOf 10 num.toNat ≠ [] := by
    rw [digitsOf, Ne, List.reverse_eq_nil_iff, Nat.digits_eq_nil_iff_eq_zero]
    exact nonzero
  rcases digitGroups_spec nonempty with ⟨group, groups, made, notEmpty, short, lengths, flat⟩
  refine ⟨group, groups, made, notEmpty, short, lengths, flat, ?_⟩
  have digits : (digitsOf 10 num.toNat).length ≤ 20 :=
    length_digitsOf_le (by norm_num) (num.toNat_lt.trans (by norm_num))
  have parts : 0 < group.length := List.length_pos_iff.mpr notEmpty
  rw [← flat, List.flatten_cons, List.length_append, length_flatten_blocks lengths] at digits
  rw [List.length_cons]
  omega

/-- The rendering does not fail, and is read by place value as its number. -/
theorem num2chinese_reads (num : UInt64) (script : ChineseScript) :
    ∃ text, num2chinese num script = some text ∧ placeValue text = some num.toNat := by
  by_cases zero : num = 0
  · subst zero
    exact ⟨"零", rfl, by decide⟩
  · rcases digitGroups_num zero with ⟨group, groups, made, _, short, lengths, flat, few⟩
    have bounded : ∀ member ∈ group :: groups, ∀ digit ∈ member, digit < 10 := by
      intro member isGroup digit inside
      have isDigit : digit ∈ digitsOf 10 num.toNat := by
        rw [← flat]
        exact List.mem_flatten.mpr ⟨member, isGroup, inside⟩
      exact digitsOf_lt (by norm_num) isDigit
    have shorts : ∀ member ∈ group :: groups, member.length ≤ 4 :=
      List.forall_mem_cons.mpr ⟨short, fun later member => (lengths later member).le⟩
    rcases convertGroups_reads script false false bounded shorts few 0 with
      ⟨text, after, converted, isRead, value⟩
    refine ⟨String.ofList text, ?_, ?_⟩
    · rw [num2chinese, if_neg zero, made, converted]
      rfl
    · rw [placeValue, String.toList_ofList, isRead, Option.map_some, value, Nat.zero_add]
      calc some (horner (10 ^ 4) ((group :: groups).map (horner 10)))
          = some (horner 10 (group :: groups).flatten) := by rw [horner_map_horner group lengths]
        _ = some num.toNat := by rw [flat, horner_digitsOf]

/-- Chinese numerals denote their number, so no two numbers are written alike. -/
theorem placeValue_num2chinese (script : ChineseScript) :
    (∀ num, ∃ text, num2chinese num script = some text ∧ placeValue text = some num.toNat) ∧
      Function.Injective (num2chinese · script) := by
  refine ⟨fun num => num2chinese_reads num script, ?_⟩
  intro first second same
  rcases num2chinese_reads first script with ⟨text, made, value⟩
  rcases num2chinese_reads second script with ⟨text', made', value'⟩
  dsimp only at same
  rw [made, made', Option.some_inj] at same
  rw [same, value', Option.some_inj] at value
  exact (UInt64.toNat_inj.mp value).symm

end PlaceValue

end Batchalign.Asr
