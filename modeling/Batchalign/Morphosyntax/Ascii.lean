import Batchalign.Morphosyntax.Labels

/-!
# Texts in ASCII

The operations on text with the case mappings of ASCII, which follow the laws that the results
assume of Python's tables.
-/

namespace Batchalign.Morphosyntax

open PythonText

section Ascii

def asciiMap (change : Char → Char) (text : String) : String :=
  String.ofList (text.toList.map change)

/-- The tables of Python for texts in ASCII. -/
instance asciiText : PythonText where
  upper := asciiMap Char.toUpper
  lower := asciiMap Char.toLower
  casefold := asciiMap Char.toLower
  isAlnum := Char.isAlphanum
  isWordMaterial := Char.isAlphanum

theorem asciiMap_eq_iff {change : Char → Char} {text : String} {chars : List Char} :
    asciiMap change text = String.ofList chars ↔ text.toList.map change = chars := by
  rw [asciiMap, String.ofList_inj]

theorem mem_asciiMap {change : Char → Char} (alpha : ∀ char, (change char).isAlpha = char.isAlpha)
    (fixed : ∀ char, char.isAlpha = false → change char = char) {mark : Char}
    (isMark : mark ∈ labelSeparators) (text : String) :
    mark ∈ (asciiMap change text).toList ↔ mark ∈ text.toList := by
  have noLetter : ∀ mark ∈ labelSeparators, mark.isAlpha = false := by
    simp [labelSeparators, Char.isAlpha, Char.isUpper, Char.isLower]
  rw [asciiMap, String.toList_ofList, List.mem_map]
  constructor
  · rintro ⟨char, member, rfl⟩
    rwa [fixed char ((alpha char).symm.trans (noLetter _ isMark))]
  · intro member
    exact ⟨mark, member, fixed mark (noLetter mark isMark)⟩

theorem upper_eq_root_iff (text : String) : upper text = "ROOT" ↔ IsRootLabel text := by
  change asciiMap Char.toUpper text = String.ofList ['R', 'O', 'O', 'T'] ↔ _
  rw [asciiMap_eq_iff, isRootLabel_iff]
  constructor
  · intro isUpper
    have lowered := congrArg (List.map Char.toLower) isUpper
    rw [List.map_map] at lowered
    refine Eq.trans (List.map_congr_left fun char _ => ?_) lowered
    exact (Char.toLower_toUpper_eq_toLower char).symm
  · intro isLower
    have raised := congrArg (List.map Char.toUpper) isLower
    rw [List.map_map] at raised
    refine Eq.trans (List.map_congr_left fun char _ => ?_) raised
    exact (Char.toUpper_toLower_eq_toUpper char).symm

instance lawfulAsciiText : LawfulPythonText where
  upper_eq_root := upper_eq_root_iff
  lower_eq_root text := by
    change asciiMap Char.toLower text = String.ofList ['r', 'o', 'o', 't'] ↔ _
    rw [asciiMap_eq_iff, isRootLabel_iff]
  casefold_eq_root text := by
    change asciiMap Char.toLower text = String.ofList ['r', 'o', 'o', 't'] ↔ _
    rw [asciiMap_eq_iff, isRootLabel_iff]
  upper_upper text := by
    change asciiMap Char.toUpper (asciiMap Char.toUpper text) = asciiMap Char.toUpper text
    simp [asciiMap, Function.comp_def]
  mem_upper text mark isMark := by
    refine mem_asciiMap (by simp) (fun char letter => ?_) isMark text
    apply Char.toUpper_eq_of_not_isLower
    simp_all [Char.isAlpha]
  mem_casefold text mark isMark := by
    refine mem_asciiMap (by simp) (fun char letter => ?_) isMark text
    apply Char.toLower_eq_of_not_isUpper
    simp_all [Char.isAlpha]

/-- On texts in ASCII the mappings of Unicode are those of ASCII. -/
class ExtendsAscii [PythonText] : Prop where
  upper_ascii : ∀ text : String, (∀ char ∈ text.toList, char.toNat < 128) →
    upper text = asciiMap Char.toUpper text
  casefold_ascii : ∀ text : String, (∀ char ∈ text.toList, char.toNat < 128) →
    casefold text = asciiMap Char.toLower text

instance asciiText_extendsAscii : ExtendsAscii where
  upper_ascii _ _ := rfl
  casefold_ascii _ _ := rfl

end Ascii

end Batchalign.Morphosyntax
