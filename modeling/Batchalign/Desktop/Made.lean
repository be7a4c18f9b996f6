import Batchalign.Desktop.Accepted

/-!
# What is made of a source

A stage makes the file of the next stage out of that of the last, and of nothing else in the
folder of the job. The files of a stage lie in a folder of their own, one for each source as long
as no two sources differ in their suffix alone, and tables and logs beside them.
-/

namespace Batchalign.Desktop

open Batchalign.Compare Batchalign.Cli Batchalign.Engine Batchalign.Morphosyntax Fallible

section Definitions

variable {Choice : Type}

/-- What the paths hold when a stage reads its inputs: this file of the job, and outside of its
folder what was there before. -/
structure Reads (surroundings : Surroundings Choice) (path : PurePath) (content : Option Content)
    (read : PurePath → Option Content) : Prop where
  own : read path = content
  others : ∀ other, isRelativeTo other surroundings.workdir = false →
    read other = surroundings.disk other

/-- The last one of the files with this path. -/
def contentOf (files : List (PurePath × Content)) (path : PurePath) : Option Content :=
  (putFiles files []).lookup path

variable [FileSystem] [ChatFormat] [ValidationGates]

/-- The first stages of a request make this content of a source, one after the other, and it
lies at this path. -/
inductive Made (surroundings : Surroundings Choice) (stages : List Stage) (sid : String)
    (source : PurePath) : ℕ → PurePath → Option Content → Prop where
  | source : Made surroundings stages sid source 0 source (surroundings.disk source)
  | stage {index : ℕ} {path target : PurePath} {content : Option Content} {stage : Stage}
      {setup : Setup Choice} {spec : InputSpec} {read : PurePath → Option Content}
      {converted : ConvertedInput} (choice : Choice) {value : BAValue}
      {files : List (PurePath × Content)}
      (made : Made surroundings stages sid source index path content)
      (isStage : stages[index]? = some stage)
      (loaded : surroundings.load index = .ok setup)
      (isInput : makeInput stage.step source path sid = .ok spec)
      (reads : Reads surroundings path content read)
      (converts : setup.convert (spec.data read) (absoluteId source) = .ok converted)
      (runs : (runOne { setup.inner with runners := setup.answers choice }
        converted.toValue).1 = value)
      (alive : value.isFailed = false)
      (isTarget : stagedPath surroundings.workdir index sid = .ok target)
      (writes : writeOutcome value target (stage.finalStage && stage.step.stripWordTiming) =
        .ok files) :
      Made surroundings stages sid source (index + 1) target
        ((contentOf files target).or (surroundings.disk target))

omit [ChatFormat] [ValidationGates] in
/-- No two sources of a request differ in their suffix alone, and no output is the table of
another source. -/
structure Apart (req : DesktopRequest) (root : PurePath) : Prop where
  staged : ∀ one ∈ req.sourceIds, ∀ other ∈ req.sourceIds, ∀ name,
    (PurePath.ofString one).withSuffix ".cha" = .ok name →
      (PurePath.ofString other).withSuffix ".cha" = .ok name → one = other
  tables : ∀ one ∈ req.sourceIds, ∀ other ∈ req.sourceIds, one ≠ other → ∀ own others,
    outputRelative req one = .ok own → outputRelative req other = .ok others →
      (outputRoot req root).join own ≠ comparisonPath ((outputRoot req root).join others)

end Definitions

section Paths

variable {path workdir name target : PurePath} {suffix sid : String} {index other : ℕ}

/-- A path in the folder of a stage. -/
def Below (workdir : PurePath) (index : ℕ) (path : PurePath) : Prop :=
  path.absolute = workdir.absolute ∧
    ∃ part rest, path.parts = workdir.parts ++ toString index :: part :: rest

def lastChar (path : PurePath) : Option Char := path.name.toList.getLast?

theorem Below.relative (below : Below workdir index path) : isRelativeTo path workdir = true := by
  rcases below with ⟨absolute, part, rest, parts⟩
  rw [isRelativeTo, decide_eq_true_eq]
  refine ⟨absolute, ?_⟩
  rw [List.isPrefixOf_iff_prefix, parts]
  exact List.prefix_append _ _

/-- The folders of two stages have no file in common. -/
theorem Below.unique (one : Below workdir index path) (two : Below workdir other path) :
    index = other := by
  rcases one with ⟨_, part, rest, parts⟩
  rcases two with ⟨_, part', rest', parts'⟩
  rw [parts, List.append_cancel_left_eq, List.cons.injEq] at parts'
  have digits := congrArg String.toList parts'.1
  rw [Nat.toString_eq_repr, Nat.toString_eq_repr, Nat.toList_repr, Nat.toList_repr] at digits
  have values := congrArg (fun chars => Nat.ofDigitChars 10 chars 0) digits
  simpa using values

theorem withSuffix_ok (isName : path.withSuffix suffix = .ok name) :
    name = { path with parts := path.parts.dropLast ++ [path.stem ++ suffix] } := by
  unfold PurePath.withSuffix at isName
  split_ifs at isName
  exact (Except.ok.inj isName).symm

theorem lastChar_concat {absolute : Bool} {parts : List String} {front back : String} {char : Char}
    (isLast : back.toList.getLast? = some char) :
    lastChar ⟨absolute, parts ++ [front ++ back]⟩ = some char := by
  have filled : back.toList ≠ [] := by
    intro empty
    rw [empty] at isLast
    cases isLast
  rw [lastChar, PurePath.name, List.getLast?_concat, Option.getD_some, String.toList_append,
    List.getLast?_append_of_ne_nil _ filled, isLast]

/-- Relative paths below one folder are told apart by the whole path. -/
theorem join_cancel {one two : PurePath} (oneRelative : one.absolute = false)
    (twoRelative : two.absolute = false) (same : path.join one = path.join two) : one = two := by
  rw [PurePath.join, PurePath.join, oneRelative, twoRelative] at same
  have parts := List.append_cancel_left (congrArg PurePath.parts same)
  cases one
  cases two
  simp_all

theorem stagedPath_ok (isTarget : stagedPath workdir index sid = .ok target) :
    ∃ name, (PurePath.ofString sid).withSuffix ".cha" = .ok name ∧
      target = (workdir.join ⟨false, [toString index]⟩).join name := by
  unfold stagedPath at isTarget
  cases named : (PurePath.ofString sid).withSuffix ".cha" with
  | error error =>
      rw [named] at isTarget
      cases isTarget
  | ok name =>
      rw [named] at isTarget
      exact ⟨name, rfl, (Except.ok.inj isTarget).symm⟩

/-- The staged file of a relative source lies in the folder of the stage. -/
theorem below_stagedPath (relative : (PurePath.ofString sid).absolute = false)
    (isTarget : stagedPath workdir index sid = .ok target) :
    Below workdir index target ∧ lastChar target = some 'a' := by
  rcases stagedPath_ok isTarget with ⟨name, named, rfl⟩
  obtain rfl := withSuffix_ok named
  have plain : ((workdir.join ⟨false, [toString index]⟩).join
      { PurePath.ofString sid with
        parts := (PurePath.ofString sid).parts.dropLast ++
          [(PurePath.ofString sid).stem ++ ".cha"] }) =
      ⟨workdir.absolute,
        (workdir.parts ++ toString index :: (PurePath.ofString sid).parts.dropLast) ++
          [(PurePath.ofString sid).stem ++ ".cha"]⟩ := by
    simp [PurePath.join, relative]
  rw [plain]
  refine ⟨⟨rfl, ?_⟩, lastChar_concat rfl⟩
  cases front : (PurePath.ofString sid).parts.dropLast with
  | nil => exact ⟨(PurePath.ofString sid).stem ++ ".cha", [], by simp⟩
  | cons part rest => exact ⟨part, rest ++ [(PurePath.ofString sid).stem ++ ".cha"], by simp⟩

/-- A file beside another lies in the same folder. -/
theorem Below.beside (below : Below workdir index path) (last : String) :
    Below workdir index { path with parts := path.parts.dropLast ++ [last] } := by
  rcases below with ⟨absolute, part, rest, parts⟩
  refine ⟨absolute, ?_⟩
  rw [parts]
  cases rest with
  | nil => exact ⟨last, [], by simp⟩
  | cons next rest =>
      refine ⟨part, (next :: rest).dropLast ++ [last], ?_⟩
      simp

/-- The staged files of two sources are apart. -/
theorem Apart.stagedPath_inj [FileSystem] {req : DesktopRequest} {root : PurePath}
    {one two : String} (apart : Apart req root) (isOne : one ∈ req.sourceIds)
    (isTwo : two ∈ req.sourceIds) (oneRelative : (PurePath.ofString one).absolute = false)
    (twoRelative : (PurePath.ofString two).absolute = false)
    (oneTarget : stagedPath workdir index one = .ok target)
    (twoTarget : stagedPath workdir index two = .ok target) : one = two := by
  rcases stagedPath_ok oneTarget with ⟨name, named, whole⟩
  rcases stagedPath_ok twoTarget with ⟨name', named', whole'⟩
  have flat : ∀ {sid name}, (PurePath.ofString sid).absolute = false →
      (PurePath.ofString sid).withSuffix ".cha" = .ok name → name.absolute = false := by
    intro sid name relative named
    rw [withSuffix_ok named]
    exact relative
  have same := join_cancel (flat oneRelative named) (flat twoRelative named')
    (whole.symm.trans whole')
  exact apart.staged one isOne two isTwo name named (same ▸ named')

end Paths

section Files

variable {path other : PurePath} {files there : List (PurePath × Content)} {value : BAValue}
  {strip : Bool}

theorem lookup_putFiles (files there : List (PurePath × Content)) (path : PurePath) :
    (putFiles files there).lookup path = (contentOf files path).or (there.lookup path) := by
  induction files using List.reverseRecOn with
  | nil => rfl
  | append_singleton files file ih =>
      rw [contentOf, putFiles, putFiles, List.foldl_concat, List.foldl_concat, lookup_dictSet,
        lookup_dictSet]
      split_ifs
      · rfl
      · exact ih

theorem keys_putFiles (isKey : path ∈ keys (putFiles files there)) :
    path ∈ keys files ∨ path ∈ keys there := by
  induction files generalizing there with
  | nil => exact .inr isKey
  | cons file files ih =>
      rcases ih isKey with later | earlier
      · exact .inl (List.mem_cons_of_mem _ later)
      · rcases mem_keys_dictSet.mp earlier with rfl | before
        · exact .inl List.mem_cons_self
        · exact .inr before

theorem contentOf_eq_none (absent : path ∉ keys files) : contentOf files path = none := by
  rw [contentOf, lookup_eq_none_iff_notMem]
  intro isKey
  rcases keys_putFiles isKey with isFile | isNothing
  · exact absent isFile
  · cases isNothing

/-- A file that an outcome is written to: the one asked for, or a table or log beside it. -/
def Beside (path other : PurePath) : Prop :=
  other = path ∨ ∃ last, other = { path with parts := path.parts.dropLast ++ [last] } ∧
    lastChar other ≠ some 'a'

theorem beside_withExtension (path : PurePath) {extension : String} {char : Char}
    (isLast : extension.toList.getLast? = some char) (differs : char ≠ 'a') :
    Beside path (path.withExtension extension) := by
  refine .inr ⟨_, rfl, ?_⟩
  rw [PurePath.withExtension, lastChar_concat isLast]
  exact fun same => differs (Option.some.inj same)

variable [ChatFormat]

theorem beside_write (path : PurePath) : (value : BAValue) →
    ∀ files, value.write path = .ok files → ∀ other ∈ keys files, Beside path other
  | .chat document | .ai _ document => by
      intro files writes other isFile
      rcases bind_eq_ok_iff.mp writes with ⟨text, _, isFiles⟩
      cases isFiles
      exact .inl (List.mem_singleton.mp isFile)
  | .paired pair => by
      intro files writes other isFile
      rcases bind_eq_ok_iff.mp writes with ⟨text, _, isFiles⟩
      cases isFiles
      exact .inl (List.mem_singleton.mp isFile)
  | .metrics artifact => by
      intro files writes other isFile
      cases writes
      rw [List.mem_singleton.mp isFile]
      cases kind : artifact.kind with
      | compare => exact beside_withExtension path rfl (by decide)
      | benchmark => exact beside_withExtension path rfl (by decide)
      | custom => exact beside_withExtension path rfl (by decide)
  | .media _ => fun _ => nofun
  | .mediaOutput output => by
      intro files writes other isFile
      cases writes
      exact .inl (List.mem_singleton.mp isFile)
  | .cons head tail => by
      intro files writes other isFile
      rcases bind_eq_ok_iff.mp writes with ⟨first, isFirst, rest⟩
      rcases bind_eq_ok_iff.mp rest with ⟨last, isLast, isFiles⟩
      cases isFiles
      rw [keys_append, List.mem_append] at isFile
      rcases isFile with here | later
      · exact beside_write path head _ isFirst other here
      · exact beside_write path tail _ isLast other later
  | .nil => by
      intro files writes other isFile
      cases writes
      cases isFile
  | .failed _ error none => by
      intro files writes other isFile
      cases writes
      rw [List.mem_singleton.mp isFile]
      exact beside_withExtension path rfl (by decide)
  | .failed _ error (some partialValue) => by
      intro files writes other isFile
      rcases bind_eq_ok_iff.mp writes with ⟨rest, isRest, isFiles⟩
      cases isFiles
      rcases List.mem_cons.mp isFile with rfl | later
      · exact beside_withExtension path rfl (by decide)
      · exact beside_write path partialValue _ isRest other later

theorem beside_writeOutcome (writes : writeOutcome value path strip = .ok files) :
    ∀ other ∈ keys files, Beside path other := by
  rw [writeOutcome, mapError_eq_ok_iff] at writes
  exact beside_write path _ _ writes

end Files

end Batchalign.Desktop
