import Batchalign.Cli.Common
import Batchalign.Morphosyntax.Ascii

/-!
# Which outcomes overwrite one another

Every selected file lies below the root of the selection, so that mirroring it under the output
folder keeps distinct files apart, and so does writing in place. A new suffix does not: two
recordings that differ in their suffixes alone get one transcript.
-/

namespace Batchalign.Cli

open Batchalign.Morphosyntax

section Below

variable {root path : PurePath} {a b parts : List String}

/-- A path in a folder or in one of its folders. -/
structure Below (root path : PurePath) : Prop where
  absolute : root.absolute = path.absolute
  inside : ∃ rest, rest ≠ [] ∧ path.parts = root.parts ++ rest

theorem Below.trans_prefix {folder : PurePath} (below : Below folder path)
    (absolute : root.absolute = folder.absolute) (isPrefix : root.parts <+: folder.parts) :
    Below root path := by
  rcases below.inside with ⟨rest, nonempty, whole⟩
  rcases isPrefix with ⟨middle, folderParts⟩
  refine ⟨absolute.trans below.absolute, middle ++ rest, by simp [nonempty], ?_⟩
  rw [whole, ← folderParts, List.append_assoc]

/-- A path without its name is below its folder. -/
theorem below_parent (named : path.parts ≠ []) : Below path.parent path := by
  refine ⟨rfl, [path.parts.getLast named], List.cons_ne_nil _ _, ?_⟩
  exact (List.dropLast_append_getLast named).symm

theorem parts_of_named (named : path.name ≠ "") : path.parts ≠ [] := by
  intro empty
  rw [PurePath.name, empty] at named
  exact named rfl

theorem commonParts_prefix_left (a b : List String) : commonParts a b <+: a := by
  induction a generalizing b with
  | nil => cases b <;> exact List.nil_prefix
  | cons x a ih =>
      cases b with
      | nil => exact List.nil_prefix
      | cons y b =>
          rw [commonParts]
          split_ifs
          · exact (List.prefix_cons_inj x).mpr (ih b)
          · exact List.nil_prefix

theorem commonParts_prefix_right (a b : List String) : commonParts a b <+: b := by
  induction a generalizing b with
  | nil => cases b <;> exact List.nil_prefix
  | cons x a ih =>
      cases b with
      | nil => exact List.nil_prefix
      | cons y b =>
          rw [commonParts]
          split_ifs with same
          · rw [same]
            exact (List.prefix_cons_inj y).mpr (ih b)
          · exact List.nil_prefix

theorem commonpath_absolute (paths : List PurePath) : (commonpath paths).absolute = true := by
  cases paths with
  | nil => rfl
  | cons first rest => rfl

/-- The common path begins each of the paths. -/
theorem commonpath_prefix {paths : List PurePath} (member : path ∈ paths) :
    (commonpath paths).parts <+: path.parts := by
  have loop : ∀ (rest : List PurePath) (parts : List String),
      let common := rest.foldl (fun parts path => commonParts parts path.parts) parts
      common <+: parts ∧ ∀ path ∈ rest, common <+: path.parts := by
    intro rest
    induction rest with
    | nil => exact fun parts => ⟨List.prefix_rfl, nofun⟩
    | cons next rest ih =>
        intro parts
        rcases ih (commonParts parts next.parts) with ⟨first, others⟩
        refine ⟨first.trans (commonParts_prefix_left _ _), List.forall_mem_cons.mpr ⟨?_, others⟩⟩
        exact first.trans (commonParts_prefix_right _ _)
  cases paths with
  | nil => cases member
  | cons first rest =>
      rcases loop rest first.parts with ⟨ofFirst, ofRest⟩
      rcases List.mem_cons.mp member with rfl | inRest
      · exact ofFirst
      · exact ofRest path inRest

end Below

section Selection

variable [FileSystem] [PythonText]

open FileSystem

/-- What every file system answers. -/
structure LawfulFileSystem : Prop where
  file_named : ∀ path, isFile path = true → path.name ≠ ""
  file_not_dir : ∀ path, isFile path = true → isDir path = false
  rglob_below : ∀ folder, ∀ path ∈ rglob folder, Below folder path

/-- A file that is found below a root. -/
structure FoundBelow (root path : PurePath) : Prop where
  absolute : path.absolute = true
  named : path.name ≠ ""
  below : Below root path

variable {entry path : PurePath} {suffixes : List String} {selection : InputSelection}

omit [PythonText] in
theorem absolutePath_of_absolute (absolute : path.absolute = true) : absolutePath path = path :=
  if_pos absolute

omit [PythonText] in
theorem rootFor_absolute (absolute : entry.absolute = true) : (rootFor entry).absolute = true := by
  unfold rootFor
  split_ifs
  · rw [absolutePath_of_absolute absolute, absolute]
  · rw [@absolutePath_of_absolute _ entry.parent absolute]
    exact absolute

/-- The files of an entry are below its root. -/
theorem walk_below (lawful : LawfulFileSystem) (absolute : entry.absolute = true)
    (isEntry : isFile entry = true ∨ isDir entry = true) (member : path ∈ walk entry suffixes) :
    FoundBelow (rootFor entry) path := by
  unfold walk at member
  unfold rootFor
  by_cases file : isFile entry = true
  · rw [if_pos file] at member
    rw [lawful.file_not_dir entry file, if_neg Bool.false_ne_true,
      @absolutePath_of_absolute _ entry.parent absolute]
    split_ifs at member
    · cases member
    · have named := lawful.file_named entry file
      rw [List.mem_singleton.mp member, absolutePath_of_absolute absolute]
      exact ⟨absolute, named, below_parent (parts_of_named named)⟩
  · rw [if_neg file] at member
    rw [if_pos (isEntry.resolve_left file), absolutePath_of_absolute absolute]
    dsimp only at member
    rw [(List.perm_insertionSort _ _).mem_iff, List.mem_map] at member
    rcases member with ⟨found, isFound, rfl⟩
    rcases List.mem_filter.mp isFound with ⟨inSorted, isKind⟩
    rw [Bool.and_eq_true, Bool.and_eq_true] at isKind
    have below := lawful.rglob_below entry found ((List.perm_insertionSort _ _).mem_iff.mp inSorted)
    have foundAbsolute := below.absolute.symm.trans absolute
    rw [absolutePath_of_absolute foundAbsolute]
    exact ⟨foundAbsolute, lawful.file_named found isKind.1.1, below⟩

omit [PythonText] in
theorem mem_of_mem_foldl_addFile {paths : List PurePath} {files : List (PurePath × PurePath)}
    (member : path ∈ (paths.foldl addFile files).map Prod.snd) :
    path ∈ files.map Prod.snd ∨ path ∈ paths := by
  induction paths generalizing files with
  | nil => exact .inl member
  | cons next paths ih =>
      rcases ih member with inFiles | inPaths
      · unfold addFile at inFiles
        split_ifs at inFiles
        · exact .inl inFiles
        · rw [List.map_append, List.mem_append] at inFiles
          rcases inFiles with old | new
          · exact .inl old
          · rw [List.mem_singleton.mp new]
            exact .inr List.mem_cons_self
      · exact .inr (List.mem_cons_of_mem _ inPaths)

theorem select_below (lawful : LawfulFileSystem) {entries : List PurePath}
    (selected : select entries suffixes = .ok selection) (member : path ∈ selection.paths) :
    FoundBelow selection.root path := by
  unfold select at selected
  split_ifs at selected
  dsimp only at selected
  generalize located : entries.map (fun entry => abspath (expanduser entry)) = found at selected
  cases missing : found.find? fun entry => ! isFile entry && ! isDir entry with
  | some entry =>
      rw [missing] at selected
      cases selected
  | none =>
      rw [missing] at selected
      obtain rfl := Except.ok.inj selected
      rcases mem_of_mem_foldl_addFile member with none | inWalks
      · cases none
      · rcases List.mem_flatMap.mp inWalks with ⟨entry, isEntry, inWalk⟩
        have absolute : entry.absolute = true := by
          rw [← located] at isEntry
          rcases List.mem_map.mp isEntry with ⟨raw, _, rfl⟩
          rfl
        have there : isFile entry = true ∨ isDir entry = true := by
          have notMissing := List.find?_eq_none.mp missing entry isEntry
          cases file : isFile entry with
          | true => exact .inl rfl
          | false => simpa [file] using notMissing
        have inRoot := walk_below lawful absolute there inWalk
        refine ⟨inRoot.absolute, inRoot.named, inRoot.below.trans_prefix ?_ ?_⟩
        · rw [rootFor_absolute absolute, commonpath_absolute]
        · exact commonpath_prefix (List.mem_map_of_mem isEntry)

/-- The selected files are below the root of the selection. -/
theorem resolveInputs_below (lawful : LawfulFileSystem) {paths : List PurePath}
    {inputList : Option PurePath}
    (resolved : resolveInputs paths inputList suffixes = .ok selection)
    (member : path ∈ selection.paths) : FoundBelow selection.root path := by
  cases inputList with
  | none => exact select_below lawful resolved member
  | some inputList =>
      rw [resolveInputs] at resolved
      cases listed : listEntries inputList with
      | error error =>
          rw [listed] at resolved
          cases resolved
      | ok entries =>
          rw [listed] at resolved
          exact select_below lawful resolved member

end Selection

section Renaming

variable {one other root path : PurePath} {outputSuffix : Option String}

/-- A path with its suffix replaced, if a command does that. -/
def renamed : Option String → PurePath → PurePath
  | none, path => path
  | some outputSuffix, path =>
      { path with parts := path.parts.dropLast ++ [path.stem ++ outputSuffix] }

theorem replaceSuffix_eq (known : outputSuffix ∈ outputSuffixes) (named : path.name ≠ "") :
    replaceSuffix path outputSuffix = .ok (renamed outputSuffix path) := by
  simp only [outputSuffixes, List.mem_cons, List.not_mem_nil, or_false] at known
  rcases known with rfl | rfl
  · rfl
  · have legal : ¬ (".cha".toList.contains '/' ∨
        (".cha" ≠ "" ∧ ".cha".toList.head? ≠ some '.') ∨ ".cha" = ".") := by
      decide
    rw [replaceSuffix, if_neg (by decide), PurePath.withSuffix, if_neg legal, if_neg named]
    rfl

/-- The part of a path below the root. -/
def relative (root path : PurePath) : PurePath := ⟨false, path.parts.drop root.parts.length⟩

theorem relativeTo_eq (below : Below root path) :
    path.relativeTo root = .ok (relative root path) := by
  rcases below.inside with ⟨rest, _, whole⟩
  have isPrefix : root.parts.isPrefixOf path.parts = true := by
    rw [List.isPrefixOf_iff_prefix, whole]
    exact List.prefix_append ..
  rw [PurePath.relativeTo, if_pos ⟨below.absolute.symm, isPrefix⟩]
  rfl

/-- Two paths with replaced suffixes are one path exactly if they have one folder and one
stem. -/
theorem renamed_eq_iff {suffix : String} (sameAbsolute : one.absolute = other.absolute) :
    renamed (some suffix) one = renamed (some suffix) other ↔
      one.parent = other.parent ∧ one.stem = other.stem := by
  unfold renamed PurePath.parent
  rw [PurePath.mk.injEq, PurePath.mk.injEq, and_iff_right sameAbsolute,
    and_iff_right sameAbsolute, List.append_singleton_inj, String.append_left_inj]

theorem Below.split (below : Below root path) :
    ∃ init last, path.parts = root.parts ++ (init ++ [last]) := by
  rcases below.inside with ⟨rest, nonempty, whole⟩
  refine ⟨rest.dropLast, rest.getLast nonempty, ?_⟩
  rw [List.dropLast_append_getLast, whole]

theorem relative_eq {rest : List String} (whole : path.parts = root.parts ++ rest) :
    relative root path = ⟨false, rest⟩ := by
  rw [relative, whole, List.drop_left]

theorem name_eq {init : List String} {last : String} (whole : path.parts = init ++ [last]) :
    path.name = last := by
  rw [PurePath.name, whole, List.getLast?_concat, Option.getD_some]

theorem renamed_below (below : Below root path) : Below root (renamed outputSuffix path) := by
  cases outputSuffix with
  | none => exact below
  | some suffix =>
      rcases below.split with ⟨init, last, whole⟩
      refine ⟨below.absolute, init ++ [path.stem ++ suffix], by simp, ?_⟩
      rw [renamed, whole, ← List.append_assoc, List.dropLast_concat, List.append_assoc]

/-- A suffix is replaced below the root. -/
theorem renamed_relative (below : Below root path) :
    renamed outputSuffix (relative root path) = relative root (renamed outputSuffix path) := by
  cases outputSuffix with
  | none => rfl
  | some suffix =>
      rcases below.split with ⟨init, last, whole⟩
      have pathName : path.name = last := name_eq (whole.trans (List.append_assoc ..).symm)
      have relativeName : (relative root path).name = last :=
        name_eq (congrArg PurePath.parts (relative_eq whole))
      have stems : (relative root path).stem = path.stem := by
        rw [PurePath.stem, PurePath.stem, relativeName, pathName]
      have parts : (renamed (some suffix) path).parts =
          root.parts ++ (init ++ [path.stem ++ suffix]) := by
        rw [renamed, whole, ← List.append_assoc, List.dropLast_concat, List.append_assoc]
      rw [relative_eq parts, renamed, stems, relative_eq whole, List.dropLast_concat]

/-- Where a path is written: in place, or mirrored in a folder. -/
def place (root : PurePath) : Option PurePath → PurePath → PurePath
  | none, path => path
  | some dir, path => dir.join (relative root path)

theorem place_inj {outDir : Option PurePath} (oneBelow : Below root one)
    (otherBelow : Below root other) : place root outDir one = place root outDir other ↔
      one = other := by
  cases outDir with
  | none => exact Iff.rfl
  | some dir =>
      rcases oneBelow.inside with ⟨rest, _, whole⟩
      rcases otherBelow.inside with ⟨otherRest, _, otherWhole⟩
      constructor
      · intro same
        rw [place, place, relative_eq whole, relative_eq otherWhole] at same
        have parts : dir.parts ++ rest = dir.parts ++ otherRest := congrArg PurePath.parts same
        rw [List.append_right_inj] at parts
        change PurePath.mk one.absolute one.parts = PurePath.mk other.absolute other.parts
        rw [whole, otherWhole, parts, ← oneBelow.absolute, ← otherBelow.absolute]
      · intro same
        rw [same]

/-- The folder of a mirrored path does not depend on its suffix. -/
theorem parent_join_renamed (dir : PurePath) (below : Below root path) :
    (dir.join (renamed outputSuffix (relative root path))).parent =
      (dir.join (relative root path)).parent := by
  rcases below.split with ⟨init, last, whole⟩
  cases outputSuffix with
  | none => rfl
  | some suffix =>
      rw [renamed, relative_eq whole, List.dropLast_concat]
      simp only [PurePath.join, PurePath.parent, Bool.false_eq_true, if_false,
        ← List.append_assoc, List.dropLast_concat]

end Renaming

section Targets

variable [FileSystem] {one other root path target : PurePath} {outDir : Option PurePath}
variable {outputSuffix : Option String}

open FileSystem

/-- The folder that a path is mirrored in is not below the output folder, once symbolic links
are resolved. -/
def Refused (root : PurePath) (outDir : Option PurePath) (path : PurePath) : Prop :=
  ∃ dir error, outDir = some dir ∧
    safeResolve (dir.join (relative root path)).parent (resolve dir) = .error error

theorem outcomeTarget_eq_ok_iff (known : outputSuffix ∈ outputSuffixes)
    (found : FoundBelow root path) :
    outcomeTarget (some path) root outDir outputSuffix = .ok target ↔
      ¬ Refused root outDir path ∧ target = place root outDir (renamed outputSuffix path) := by
  cases outDir with
  | none =>
      have notRefused : ¬ Refused root none path := by
        rintro ⟨dir, _, none, _⟩
        cases none
      change replaceSuffix path outputSuffix = _ ↔ _
      rw [replaceSuffix_eq known found.named, and_iff_right notRefused, Except.ok.injEq, eq_comm]
      rfl
  | some dir =>
      have named : (relative root path).name ≠ "" := by
        rcases found.below.split with ⟨init, last, whole⟩
        rw [name_eq (congrArg PurePath.parts (relative_eq whole)),
          ← name_eq (whole.trans (List.append_assoc ..).symm)]
        exact found.named
      rw [outcomeTarget, relativeTo_eq found.below]
      change (replaceSuffix (relative root path) outputSuffix >>= _) = _ ↔ _
      rw [replaceSuffix_eq known named]
      change (safeResolve (dir.join (renamed outputSuffix (relative root path))).parent
        (resolve dir) >>= _) = _ ↔ _
      rw [parent_join_renamed dir found.below, renamed_relative found.below]
      cases safe : safeResolve (dir.join (relative root path)).parent (resolve dir) with
      | error error =>
          have refused : Refused root (some dir) path := ⟨dir, error, rfl, safe⟩
          exact iff_of_false nofun fun both => both.1 refused
      | ok resolved =>
          have notRefused : ¬ Refused root (some dir) path := by
            rintro ⟨_, error, ⟨⟩, fails⟩
            rw [safe] at fails
            cases fails
          change Except.ok _ = _ ↔ _
          rw [and_iff_right notRefused, Except.ok.injEq, eq_comm]
          rfl

/-- Distinct sources have distinct targets exactly if the suffix is kept or none of them differ
in their suffixes alone. -/
theorem targets_distinct_iff [PythonText] (lawful : LawfulFileSystem)
    (known : outputSuffix ∈ outputSuffixes) {paths : List PurePath} {inputList : Option PurePath}
    {suffixes : List String} {selection : InputSelection}
    (resolved : resolveInputs paths inputList suffixes = .ok selection) :
    (∀ one ∈ selection.paths, ∀ other ∈ selection.paths, one ≠ other → ∀ target,
        outcomeTarget (some one) selection.root outDir outputSuffix = .ok target →
        outcomeTarget (some other) selection.root outDir outputSuffix ≠ .ok target) ↔
      (outputSuffix = none ∨ ∀ one ∈ selection.paths, ∀ other ∈ selection.paths, one ≠ other →
        one.parent = other.parent → one.stem = other.stem →
          Refused selection.root outDir one ∨ Refused selection.root outDir other) := by
  have found : ∀ path ∈ selection.paths, FoundBelow selection.root path := fun _ member =>
    resolveInputs_below lawful resolved member
  constructor
  · intro distinct
    cases outputSuffix with
    | none => exact .inl rfl
    | some suffix =>
        right
        intro one isOne other isOther differ sameFolder sameStem
        by_contra neither
        rw [not_or] at neither
        have sameName : renamed (some suffix) one = renamed (some suffix) other :=
          (renamed_eq_iff ((found one isOne).absolute.trans
            (found other isOther).absolute.symm)).mpr ⟨sameFolder, sameStem⟩
        apply distinct one isOne other isOther differ
          (place selection.root outDir (renamed (some suffix) one))
        · exact (outcomeTarget_eq_ok_iff known (found one isOne)).mpr ⟨neither.1, rfl⟩
        · rw [sameName]
          exact (outcomeTarget_eq_ok_iff known (found other isOther)).mpr ⟨neither.2, rfl⟩
  · intro apart one isOne other isOther differ target ofOne ofOther
    rcases (outcomeTarget_eq_ok_iff known (found one isOne)).mp ofOne with ⟨oneKept, oneTarget⟩
    rcases (outcomeTarget_eq_ok_iff known (found other isOther)).mp ofOther with
      ⟨otherKept, otherTarget⟩
    have same := (place_inj (renamed_below (found one isOne).below)
      (renamed_below (found other isOther).below)).mp (oneTarget.symm.trans otherTarget)
    cases outputSuffix with
    | none => exact differ same
    | some suffix =>
        rcases apart with none | apart
        · cases none
        · rcases (renamed_eq_iff ((found one isOne).absolute.trans
            (found other isOther).absolute.symm)).mp same with ⟨sameFolder, sameStem⟩
          rcases apart one isOne other isOther differ sameFolder sameStem with refused | refused
          · exact oneKept refused
          · exact otherKept refused

end Targets

section Samples

def absolutePathOf (parts : List String) : PurePath := ⟨true, parts⟩

/-- A folder with two recordings, and one with two formats of one recording. -/
def recordings : List PurePath :=
  [["apart", "a.wav"], ["apart", "b.mp3"], ["both", "a.wav"], ["both", "a.mp3"]].map absolutePathOf

instance twoFolders : FileSystem where
  cwd := absolutePathOf []
  expanduser path := path
  resolve path := path
  pathExists path := recordings.contains path
  isFile path := recordings.contains path
  isDir path := [[], ["apart"], ["both"]].contains path.parts && path.absolute
  rglob folder := recordings.filter fun path =>
    folder.absolute && folder.parts.isPrefixOf path.parts && path != folder
  size _ := 0
  readLines _ := .error "No such file or directory"

theorem twoFolders_lawful : LawfulFileSystem where
  file_named path file := by
    have named : ∀ path ∈ recordings, path.name ≠ "" := by decide
    exact named path (List.contains_iff_mem.mp file)
  file_not_dir path file := by
    have notDir : ∀ path ∈ recordings, FileSystem.isDir path = false := by decide
    exact notDir path (List.contains_iff_mem.mp file)
  rglob_below folder path member := by
    rcases List.mem_filter.mp member with ⟨isRecording, inFolder⟩
    have absolute : ∀ path ∈ recordings, path.absolute = true := by decide
    rw [Bool.and_eq_true, Bool.and_eq_true, List.isPrefixOf_iff_prefix] at inFolder
    rcases inFolder with ⟨⟨isAbsolute, rest, whole⟩, differ⟩
    refine ⟨isAbsolute.trans (absolute path isRecording).symm, rest, ?_, whole.symm⟩
    rintro rfl
    rw [List.append_nil] at whole
    have same : path = folder := by
      change PurePath.mk path.absolute path.parts = PurePath.mk folder.absolute folder.parts
      rw [absolute path isRecording, isAbsolute, whole]
    simp [same] at differ

/-- The recordings of a folder, transcribed to another one. -/
theorem apart_distinct :
    ∃ selection, resolveInputs [absolutePathOf ["apart"]] none mediaExtensions = .ok selection ∧
      selection.paths.length = 2 ∧
      ∀ one ∈ selection.paths, ∀ other ∈ selection.paths, one ≠ other → ∀ target,
        outcomeTarget (some one) selection.root (some (absolutePathOf ["out"])) (some ".cha") =
          .ok target →
        outcomeTarget (some other) selection.root (some (absolutePathOf ["out"])) (some ".cha") ≠
          .ok target := by
  have resolved : resolveInputs [absolutePathOf ["apart"]] none mediaExtensions =
      .ok ⟨[["apart", "a.wav"], ["apart", "b.mp3"]].map absolutePathOf,
        absolutePathOf ["apart"]⟩ := by
    decide +kernel
  refine ⟨_, resolved, rfl, (targets_distinct_iff twoFolders_lawful (by decide) resolved).mpr ?_⟩
  right
  have stems : ∀ one ∈ [["apart", "a.wav"], ["apart", "b.mp3"]].map absolutePathOf,
      ∀ other ∈ [["apart", "a.wav"], ["apart", "b.mp3"]].map absolutePathOf,
        one ≠ other → one.stem ≠ other.stem := by
    decide
  intro one isOne other isOther differ _ same
  exact absurd same (stems one isOne other isOther differ)

/-- Both formats of a recording are transcribed to one file. -/
theorem both_overwrite :
    ∃ selection, resolveInputs [absolutePathOf ["both"]] none mediaExtensions = .ok selection ∧
      ¬ ∀ one ∈ selection.paths, ∀ other ∈ selection.paths, one ≠ other → ∀ target,
        outcomeTarget (some one) selection.root none (some ".cha") = .ok target →
        outcomeTarget (some other) selection.root none (some ".cha") ≠ .ok target := by
  have resolved : resolveInputs [absolutePathOf ["both"]] none mediaExtensions =
      .ok ⟨[["both", "a.mp3"], ["both", "a.wav"]].map absolutePathOf,
        absolutePathOf ["both"]⟩ := by
    decide +kernel
  refine ⟨_, resolved, fun distinct => ?_⟩
  exact distinct (absolutePathOf ["both", "a.mp3"]) (by decide)
    (absolutePathOf ["both", "a.wav"]) (by decide) (by decide)
    (absolutePathOf ["both", "a.cha"]) (by decide +kernel) (by decide +kernel)

end Samples

end Batchalign.Cli
