import Batchalign.Library.CanonicalOrder

/-!
# Comparison symbols

`comparison_symbols` of `backends/phonetic/utils/projection.py`. The letter g is replaced before
the decomposition, so a precomposed letter keeps the g it decomposes to, and texts that are
canonically equivalent can have different symbols. Without such letters the symbols are the
pieces of the normal form.
-/

namespace Batchalign.Phonetic

open CanonicalOrder

section Definitions

/-- `unicodedata` and `str.isspace`: the full canonical decomposition of a character and its
combining class. -/
class UnicodeData where
  decompose : Char → List Char
  combining : Char → ℕ
  isSpace : Char → Bool
  decompose_g : decompose 'g' = ['g']
  decompose_script : decompose 'ɡ' = ['ɡ']
  combining_g : combining 'g' = 0
  combining_script : combining 'ɡ' = 0
  isSpace_g : isSpace 'g' = false

variable [UnicodeData]

open UnicodeData

/-- `unicodedata.normalize("NFD", text)`. -/
def normalizeNfd (text : List Char) : List Char := order combining (text.flatMap decompose)

def scriptG (c : Char) : Char := if c = 'g' then 'ɡ' else c

/-- Stress, spaces and the separators of syllables and words. -/
def isMark (c : Char) : Bool := isSpace c || ['ˈ', 'ˌ', '.', '‿'].contains c

def isModifier (c : Char) : Bool :=
  ['ː', 'ˑ', 'ʰ', 'ʷ', 'ʲ', 'ⁿ', 'ˡ', '˞', 'ˠ', 'ˤ', 'ʼ'].contains c

def isTie (c : Char) : Bool := c == '\u0361' || c == '\u035c'

/-- `symbols[-1] += c`. -/
def extendLast (symbols : List String) (c : Char) : List String :=
  symbols.dropLast ++ symbols.getLast?.toList.map (· ++ String.singleton c)

def pushSymbol (symbols : List String) (tied : Bool) (c : Char) : List String :=
  if ! symbols.isEmpty && (combining c != 0 || isModifier c || tied) then extendLast symbols c
  else symbols ++ [String.singleton c]

/-- The loop over the normal form. `tied` is set after a tie bar. -/
def symbolsFrom : List String → Bool → List Char → List String
  | symbols, _, [] => symbols
  | symbols, tied, c :: chars =>
      if isMark c then symbolsFrom symbols tied chars
      else symbolsFrom (pushSymbol symbols tied c) (isTie c) chars

def comparisonSymbols (ipa : String) : List String :=
  symbolsFrom [] false (normalizeNfd (ipa.toList.map scriptG))

end Definitions

section Pieces

variable [UnicodeData]

theorem pushSymbol_cases (symbols : List String) (tied : Bool) (c : Char) :
    (∃ init last, symbols = init ++ [last] ∧
      pushSymbol symbols tied c = init ++ [last ++ String.singleton c]) ∨
    pushSymbol symbols tied c = symbols ++ [String.singleton c] := by
  rw [pushSymbol]
  split
  · left
    rcases List.eq_nil_or_concat' symbols with rfl | ⟨init, last, rfl⟩
    · simp at *
    · exact ⟨init, last, rfl, by simp [extendLast]⟩
  · right
    rfl

omit [UnicodeData] in
theorem join_append (front back : List String) :
    String.join (front ++ back) = String.join front ++ String.join back := by
  rw [← String.toList_inj]
  simp

theorem join_pushSymbol (symbols : List String) (tied : Bool) (c : Char) :
    String.join (pushSymbol symbols tied c) = String.join symbols ++ String.singleton c := by
  rcases pushSymbol_cases symbols tied c with ⟨init, last, rfl, glued⟩ | fresh
  · rw [glued, join_append, join_append, ← String.toList_inj]
    simp
  · rw [fresh, join_append]
    simp

/-- The symbols are cut from the characters that are no marks. -/
theorem join_symbolsFrom (symbols : List String) (tied : Bool) (chars : List Char) :
    String.join (symbolsFrom symbols tied chars) =
      String.join symbols ++ String.ofList (chars.filter (! isMark ·)) := by
  induction chars generalizing symbols tied with
  | nil => simp [symbolsFrom]
  | cons c chars ih =>
      rw [symbolsFrom]
      by_cases mark : isMark c = true
      · rw [if_pos mark, ih, List.filter_cons_of_neg (by simp [mark])]
      · rw [if_neg mark, ih, join_pushSymbol, List.filter_cons_of_pos (by simpa using mark),
          String.append_assoc, ← String.toList_inj]
        simp

theorem symbolsFrom_ne_empty {symbols : List String} (filled : ∀ symbol ∈ symbols, symbol ≠ "")
    (tied : Bool) (chars : List Char) :
    ∀ symbol ∈ symbolsFrom symbols tied chars, symbol ≠ "" := by
  induction chars generalizing symbols tied with
  | nil => exact filled
  | cons c chars ih =>
      rw [symbolsFrom]
      split
      · exact ih filled tied
      · apply ih
        rcases pushSymbol_cases symbols tied c with ⟨init, last, rfl, glued⟩ | fresh
        · rw [glued]
          exact List.forall_mem_append.mpr
            ⟨(List.forall_mem_append.mp filled).1, by simp⟩
        · rw [fresh]
          exact List.forall_mem_append.mpr ⟨filled, by simp⟩

end Pieces

section Equivalence

variable [UnicodeData]

open UnicodeData

/-- The symbols are not empty, and they are the normal form with its g replaced and without its
marks. -/
structure Faithful (ipa : String) : Prop where
  filled : ∀ symbol ∈ comparisonSymbols ipa, symbol ≠ ""
  joined : String.join (comparisonSymbols ipa) =
    String.ofList (((normalizeNfd ipa.toList).map scriptG).filter (! isMark ·))

/-- Texts with one normal form have the same symbols, and both texts have faithful ones. -/
structure Canonical (first second : String) : Prop where
  equal : normalizeNfd first.toList = normalizeNfd second.toList →
    comparisonSymbols first = comparisonSymbols second
  first : Faithful first
  second : Faithful second

/-- No letter but g itself has a g in its decomposition. -/
def PlainG (ipa : String) : Prop := ∀ c ∈ ipa.toList, c ≠ 'g' → 'g' ∉ decompose c

omit [UnicodeData] in
theorem map_scriptG_of_not_mem {chars : List Char} (absent : 'g' ∉ chars) :
    chars.map scriptG = chars := by
  have same : ∀ c ∈ chars, scriptG c = id c := by
    intro c member
    rw [scriptG, if_neg]
    · rfl
    · rintro rfl
      exact absent member
  rw [List.map_congr_left same, List.map_id]

theorem combining_scriptG (c : Char) : combining (scriptG c) = combining c := by
  unfold scriptG
  split
  · next isG => rw [isG, combining_script, combining_g]
  · rfl

theorem decompose_scriptG (c : Char) :
    (decompose (scriptG c)).map scriptG = (decompose c).map scriptG := by
  by_cases isG : c = 'g'
  · rw [isG, scriptG, if_pos rfl, decompose_script, decompose_g]
    rfl
  · rw [scriptG, if_neg isG]

/-- Replacing g after the decomposition gives what replacing it before and after gives. -/
theorem normalizeNfd_scriptG (chars : List Char) :
    (normalizeNfd (chars.map scriptG)).map scriptG = (normalizeNfd chars).map scriptG := by
  rw [normalizeNfd, normalizeNfd, ← order_map combining_scriptG, ← order_map combining_scriptG,
    List.map_flatMap, List.map_flatMap, List.flatMap_map]
  exact congrArg _ (List.flatMap_congr fun c _ => decompose_scriptG c)

theorem g_mem_normalizeNfd_iff (ipa : String) :
    'g' ∈ normalizeNfd (ipa.toList.map scriptG) ↔ ¬ PlainG ipa := by
  rw [normalizeNfd, (order_perm _).mem_iff, List.flatMap_map, List.mem_flatMap]
  constructor
  · rintro ⟨c, member, inside⟩ plain
    by_cases isG : c = 'g'
    · rw [isG, scriptG, if_pos rfl, decompose_script] at inside
      simp at inside
    · rw [scriptG, if_neg isG] at inside
      exact plain c member isG inside
  · intro hidden
    simp only [PlainG, not_forall, not_not] at hidden
    rcases hidden with ⟨c, member, notG, inside⟩
    exact ⟨c, member, by rwa [scriptG, if_neg notG]⟩

theorem faithful_iff (ipa : String) : Faithful ipa ↔ PlainG ipa := by
  have joined := join_symbolsFrom [] false (normalizeNfd (ipa.toList.map scriptG))
  constructor
  · intro faithful
    by_contra hidden
    have isG := (g_mem_normalizeNfd_iff ipa).mpr hidden
    have same := joined.symm.trans faithful.joined
    rw [← normalizeNfd_scriptG, String.join_nil, String.empty_append, String.ofList_inj] at same
    have kept : 'g' ∈ (normalizeNfd (ipa.toList.map scriptG)).filter (! isMark ·) :=
      List.mem_filter.mpr ⟨isG, by simp [isMark, isSpace_g]⟩
    rw [same] at kept
    rcases List.mem_map.mp (List.mem_filter.mp kept).1 with ⟨c, _, replaced⟩
    unfold scriptG at replaced
    split at replaced
    · cases replaced
    · next notG => exact notG replaced
  · intro plain
    have noG : 'g' ∉ normalizeNfd (ipa.toList.map scriptG) := fun member =>
      (g_mem_normalizeNfd_iff ipa).mp member plain
    refine ⟨symbolsFrom_ne_empty (by simp) _ _, ?_⟩
    rw [← normalizeNfd_scriptG, map_scriptG_of_not_mem noG]
    rw [String.join_nil, String.empty_append] at joined
    exact joined

/-- Without a hidden g the symbols are read off the normal form. -/
theorem comparisonSymbols_of_plain {ipa : String} (plain : PlainG ipa) :
    comparisonSymbols ipa = symbolsFrom [] false ((normalizeNfd ipa.toList).map scriptG) := by
  have noG : 'g' ∉ normalizeNfd (ipa.toList.map scriptG) := fun member =>
    (g_mem_normalizeNfd_iff ipa).mp member plain
  rw [comparisonSymbols, ← normalizeNfd_scriptG, map_scriptG_of_not_mem noG]

/-- Canonical equivalents compare equal exactly when neither text hides a g. -/
theorem canonical_iff (first second : String) :
    Canonical first second ↔ PlainG first ∧ PlainG second := by
  constructor
  · intro canonical
    exact ⟨(faithful_iff first).mp canonical.first, (faithful_iff second).mp canonical.second⟩
  · rintro ⟨plainFirst, plainSecond⟩
    refine ⟨?_, (faithful_iff first).mpr plainFirst, (faithful_iff second).mpr plainSecond⟩
    intro same
    rw [comparisonSymbols_of_plain plainFirst, comparisonSymbols_of_plain plainSecond, same]

end Equivalence

section Examples

/-- The decompositions of two letters and the classes of the marks in them. -/
@[reducible] def sampleUnicode : UnicodeData where
  decompose c := if c = 'ǵ' then ['g', '\u0301'] else if c = 'ã' then ['a', '\u0303'] else [c]
  combining c := if c = '\u0301' || c = '\u0303' then 230 else if c = '\u0361' then 234 else 0
  isSpace c := c = ' '
  decompose_g := rfl
  decompose_script := rfl
  combining_g := rfl
  combining_script := rfl
  isSpace_g := rfl

example : @comparisonSymbols sampleUnicode "ˈt͡ʃã" = ["t͡ʃ", "a\u0303"] := by decide

/-- The precomposed letter keeps its g, the letter with a mark does not. -/
theorem precomposedG_differs :
    @normalizeNfd sampleUnicode "ǵ".toList = @normalizeNfd sampleUnicode "g\u0301".toList ∧
      @comparisonSymbols sampleUnicode "ǵ" = ["g\u0301"] ∧
      @comparisonSymbols sampleUnicode "g\u0301" = ["ɡ\u0301"] ∧
      ¬ @Canonical sampleUnicode "ǵ" "g\u0301" := by
  have same : @normalizeNfd sampleUnicode "ǵ".toList =
      @normalizeNfd sampleUnicode "g\u0301".toList := by
    decide
  refine ⟨same, by decide, by decide, ?_⟩
  intro canonical
  exact absurd (@Canonical.equal sampleUnicode _ _ canonical same) (by decide)

end Examples

end Batchalign.Phonetic
