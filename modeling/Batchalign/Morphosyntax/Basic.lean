import Batchalign.Text

/-!
# The text and list operations of the morphosyntax backend

`render.py` reads the analysis of a Stanza sentence. Its lists are indexed the way Python does
it, from the end for a negative index, and its dictionaries keep the order in which their keys
came in. The case mappings and categories of Unicode are parameters.
-/

namespace Batchalign.Morphosyntax

section PythonText

/-- The operations on text that Python takes from the Unicode tables. `isWordMaterial` holds of
the letters, the marks and the numbers. -/
class PythonText where
  upper : String → String
  lower : String → String
  casefold : String → String
  isAlnum : Char → Bool
  isWordMaterial : Char → Bool

/-- What `isspace` holds of: the white space of Unicode and four information separators. -/
def isSpace (char : Char) : Bool :=
  isWhitespace char || (0x1C ≤ char.toNat && char.toNat ≤ 0x1F)

/-- `str.strip`. -/
def strip (text : String) : String :=
  String.ofList ((text.toList.dropWhile isSpace).rdropWhile isSpace)

/-- `needle in text` for two strings. -/
def isIn (needle text : String) : Bool := decide (needle.toList <:+: text.toList)

/-- The last `count` characters, all of them in a shorter text. -/
def lastChars (count : ℕ) (text : String) : String :=
  String.ofList (text.toList.drop (text.toList.length - count))

/-- `\w` of the module `re`. -/
def isWordChar [PythonText] (char : Char) : Bool := PythonText.isAlnum char || char == '_'

/-- The relation is `root` up to the case of its letters. -/
def IsRootLabel (label : String) : Prop := label.map Char.toLower = "root"

instance (label : String) : Decidable (IsRootLabel label) :=
  inferInstanceAs (Decidable (_ = _))

/-- The marks that `render.py` takes for separators in a relation. -/
def labelSeparators : List Char := [':', '<', '>', '-']

/-- No character outside of ASCII has one of `r`, `o`, `t` alone for a case variant, and the
separators have no case. -/
class LawfulPythonText [PythonText] : Prop where
  upper_eq_root : ∀ text, PythonText.upper text = "ROOT" ↔ IsRootLabel text
  lower_eq_root : ∀ text, PythonText.lower text = "root" ↔ IsRootLabel text
  casefold_eq_root : ∀ text, PythonText.casefold text = "root" ↔ IsRootLabel text
  upper_upper : ∀ text, PythonText.upper (PythonText.upper text) = PythonText.upper text
  mem_upper : ∀ text, ∀ mark ∈ labelSeparators,
    mark ∈ (PythonText.upper text).toList ↔ mark ∈ text.toList
  mem_casefold : ∀ text, ∀ mark ∈ labelSeparators,
    mark ∈ (PythonText.casefold text).toList ↔ mark ∈ text.toList

end PythonText

section Faults

/-- What `parse_sentence` raises. -/
inductive PythonError where
  | indexError
  | valueError (message : String)
deriving DecidableEq, Repr

end Faults

section Lists

universe u

variable {α : Type u}

/-- The place a Python index stands for in a list of this length. -/
def pyIndex (length : ℕ) (index : ℤ) : Option ℕ :=
  if 0 ≤ index then
    if index < length then some index.toNat else none
  else if 0 ≤ index + length then some (index + length).toNat else none

def pyGet (xs : List α) (index : ℤ) : Except PythonError α :=
  match (pyIndex xs.length index).bind (xs[·]?) with
  | some x => .ok x
  | none => .error .indexError

def pySet (xs : List α) (index : ℤ) (x : α) : Except PythonError (List α) :=
  match pyIndex xs.length index with
  | some place => .ok (xs.set place x)
  | none => .error .indexError

theorem pyIndex_eq_some {length place : ℕ} {index : ℤ} :
    pyIndex length index = some place ↔
      place < length ∧ (index = place ∨ index + length = place) := by
  unfold pyIndex
  split_ifs with positive inside negative
  · simp only [Option.some.injEq]
    omega
  · simp only [false_iff]
    omega
  · simp only [Option.some.injEq]
    omega
  · simp only [false_iff]
    omega

theorem pyGet_eq_ok {xs : List α} {index : ℤ} {x : α} :
    pyGet xs index = .ok x ↔
      ∃ place, pyIndex xs.length index = some place ∧ xs[place]? = some x := by
  unfold pyGet
  cases located : pyIndex xs.length index with
  | none => simp
  | some place =>
      rw [Option.bind_some]
      cases found : xs[place]? with
      | none => simp [found]
      | some y => simp [found]

theorem pySet_eq_ok {xs ys : List α} {index : ℤ} {x : α} :
    pySet xs index x = .ok ys ↔
      ∃ place, pyIndex xs.length index = some place ∧ ys = xs.set place x := by
  unfold pySet
  cases pyIndex xs.length index with
  | none => simp
  | some place => simp [eq_comm]

/-- The one element of a list with a property. -/
theorem filter_eq_singleton {xs : List α} {x : α} {p : α → Bool} (nodup : xs.Nodup)
    (member : x ∈ xs) (only : ∀ y ∈ xs, p y = true ↔ y = x) : xs.filter p = [x] := by
  rw [← List.perm_singleton, List.perm_ext_iff_of_nodup (nodup.filter p) (List.nodup_singleton x)]
  intro y
  rw [List.mem_filter, List.mem_singleton]
  constructor
  · rintro ⟨inside, holds⟩
    exact (only y inside).mp holds
  · rintro rfl
    exact ⟨member, (only y member).mpr rfl⟩

end Lists

section Dictionaries

universe u v

variable {κ : Type u} {ν : Type v} [DecidableEq κ]

/-- `entries[key] = value`: a key that is there keeps its place. -/
def dictSet (key : κ) (value : ν) : List (κ × ν) → List (κ × ν)
  | [] => [(key, value)]
  | entry :: rest => if entry.1 = key then (key, value) :: rest else entry :: dictSet key value rest

theorem lookup_dictSet (key other : κ) (value : ν) (entries : List (κ × ν)) :
    (dictSet key value entries).lookup other =
      if other = key then some value else entries.lookup other := by
  induction entries with
  | nil =>
      by_cases same : other = key
      · simp [dictSet, same]
      · simp [dictSet, same]
  | cons entry rest ih =>
      rcases entry with ⟨first, stored⟩
      by_cases here : first = key
      · subst first
        by_cases same : other = key
        · simp [dictSet, same]
        · simp [dictSet, same, List.lookup_cons, beq_eq_false_iff_ne.mpr same]
      · by_cases same : other = first
        · subst other
          simp [dictSet, here]
        · simp [dictSet, here, List.lookup_cons, beq_eq_false_iff_ne.mpr same, ih]

theorem mem_dictSet {key : κ} {value : ν} {entries : List (κ × ν)}
    {entry : κ × ν} (member : entry ∈ dictSet key value entries) :
    entry = (key, value) ∨ entry ∈ entries := by
  induction entries with
  | nil => exact Or.inl (List.mem_singleton.mp member)
  | cons first rest ih =>
      rw [dictSet] at member
      split at member
      · rcases List.mem_cons.mp member with rfl | later
        · exact Or.inl rfl
        · exact Or.inr (List.mem_cons_of_mem _ later)
      · rcases List.mem_cons.mp member with rfl | later
        · exact Or.inr List.mem_cons_self
        · exact (ih later).imp id (List.mem_cons_of_mem _)

variable {ι : Type} {items : List ι} {keyOf : ι → κ} {valueOf : ι → ν} {entries : List (κ × ν)}

theorem lookup_foldl_dictSet_of_notMem {key : κ} (absent : key ∉ items.map keyOf) :
    (items.foldl (fun entries item => dictSet (keyOf item) (valueOf item) entries) entries).lookup
      key = entries.lookup key := by
  induction items generalizing entries with
  | nil => rfl
  | cons item items ih =>
      rw [List.map_cons, List.mem_cons, not_or] at absent
      rw [List.foldl_cons, ih absent.2, lookup_dictSet, if_neg absent.1]

/-- Of items with different keys each is found again. -/
theorem lookup_foldl_dictSet (nodup : (items.map keyOf).Nodup) {item : ι} (member : item ∈ items) :
    (items.foldl (fun entries item => dictSet (keyOf item) (valueOf item) entries) entries).lookup
      (keyOf item) = some (valueOf item) := by
  induction items generalizing entries with
  | nil => cases member
  | cons first items ih =>
      rw [List.map_cons, List.nodup_cons] at nodup
      rw [List.foldl_cons]
      rcases List.mem_cons.mp member with rfl | later
      · rw [lookup_foldl_dictSet_of_notMem nodup.1, lookup_dictSet, if_pos rfl]
      · exact ih nodup.2 later

end Dictionaries

section Records

/-- What Stanza says of a word, with nothing for a field of another type. -/
structure StanzaWord where
  text : Option String
  lemmaText : Option String
  upos : Option String
  feats : Option String
  head : Option ℤ
  deprel : Option String
  id : Option ℕ
deriving DecidableEq, Repr

/-- A token with the ids of its words, of a sentence or of the renderer. -/
structure Token where
  text : String
  id : List ℕ
deriving DecidableEq, Repr

/-- `_NormalizedWord`. -/
structure NormalizedWord where
  text : String
  lemmaText : String
  upos : String
  feats : Option String
  head : ℕ
  deprel : String
  id : ℕ
deriving DecidableEq, Repr

structure StanzaSentence where
  words : List StanzaWord
  tokens : List Token
deriving DecidableEq, Repr

/-- A value in the log of repaired fields. -/
inductive FieldValue where
  | missing
  | text (value : String)
  | number (value : ℤ)
  | fields (values : List (String × (String ⊕ ℕ)))
deriving DecidableEq, Repr

structure AnalysisAnomaly where
  wordIndex : ℕ
  text : String
  field : String
  original : FieldValue
  replacement : FieldValue
  reason : String
deriving DecidableEq, Repr

end Records

end Batchalign.Morphosyntax
