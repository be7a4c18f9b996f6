import Batchalign.Cli.Targets
import Batchalign.Dictionaries
import Batchalign.Library.Fallible
import Batchalign.Values

/-!
# Requests of the desktop

A request names a folder, sources below it and the steps they go through. `valid_pipeline`
checks the request itself, and `_sources` resolves its sources and the targets they will be
published to, before anything is run.
-/

namespace Batchalign.Desktop

open Batchalign.Cli Batchalign.Morphosyntax Fallible

section Steps

inductive Verb where
  | transcribe
  | diarize
  | align
  | morphotag
  | translate
  | compare
deriving DecidableEq, Repr

def Verb.text : Verb → String
  | .transcribe => "transcribe"
  | .diarize => "diarize"
  | .align => "align"
  | .morphotag => "morphotag"
  | .translate => "translate"
  | .compare => "compare"

/-- `TASKS`. -/
def Verb.task : Verb → Task
  | .transcribe => .asr
  | .diarize => .speaker
  | .align => .fa
  | .morphotag => Task.morphosyntax
  | .translate => .translate
  | .compare => .compare

theorem Verb.task_injective : Function.Injective Verb.task := by
  intro one other same
  cases one <;> cases other <;> first | rfl | cases same

/-- A keyword argument of a recipe: `None`, or the text of another JSON value. -/
inductive Kwarg where
  | none
  | json (text : String)
deriving DecidableEq, Repr

structure DesktopStep where
  recipe : Verb
  kwargs : List (String × Kwarg)
  goldPath : Option String
  stripWordTiming : Bool
  language : Option String
deriving DecidableEq, Repr

/-- The recipes of `_run`: those of the steps, and the recovery of timing before an
alignment. -/
inductive Recipe where
  | utr
  | verb (verb : Verb)
deriving DecidableEq, Repr

structure Stage where
  step : DesktopStep
  recipe : Recipe
  finalStage : Bool
deriving DecidableEq, Repr

/-- The stages of a step. Timing is recovered unless the backend for it is given as `None`. -/
def DesktopStep.stages (step : DesktopStep) : List Stage :=
  let own : Stage := ⟨step, .verb step.recipe, true⟩
  if step.recipe = .align ∧ step.kwargs.lookup "utr_backend" ≠ some .none then
    [⟨step, .utr, false⟩, own]
  else [own]

end Steps

section Requests

structure DesktopRequest where
  folder : String
  sourceIds : List String
  steps : List DesktopStep
  inPlace : Bool
  outputPath : Option String
  workers : ℕ
deriving DecidableEq, Repr

/-- `req.output_path or ""`. -/
def DesktopRequest.outputText (req : DesktopRequest) : String := req.outputPath.getD ""

def validPipeline (req : DesktopRequest) : Except String DesktopRequest := do
  let names := req.steps.map DesktopStep.recipe
  require (names.dedup.length = names.length) "pipeline steps must be unique"
  require (.transcribe ∉ names.tail) "transcribe must be the first step"
  require (req.inPlace = true ∨ req.outputText ≠ "")
    "choose an output folder or enable in-place output"
  require (req.sourceIds.dedup.length = req.sourceIds.length) "input files must be unique"
  .ok req

/-- A request as the daemon gets it, its fields in their bounds. -/
structure ValidRequest extends DesktopRequest where
  someSource : sourceIds ≠ []
  someStep : steps ≠ []
  someWorkers : 0 < workers
  fewWorkers : workers ≤ 64
  valid : validPipeline toDesktopRequest = .ok toDesktopRequest

theorem length_dedup_eq_iff {α : Type*} [DecidableEq α] {items : List α} :
    items.dedup.length = items.length ↔ items.Nodup := by
  constructor
  · intro same
    rw [← (List.dedup_sublist items).eq_of_length same]
    exact List.nodup_dedup items
  · intro nodup
    rw [nodup.dedup]

theorem validPipeline_ok_iff {req : DesktopRequest} :
    validPipeline req = .ok req ↔
      (req.steps.map DesktopStep.recipe).Nodup ∧
        .transcribe ∉ (req.steps.map DesktopStep.recipe).tail ∧
        (req.inPlace = true ∨ req.outputText ≠ "") ∧ req.sourceIds.Nodup := by
  simp only [validPipeline, require_bind_eq_ok_iff, length_dedup_eq_iff, and_true]

def DesktopRequest.stages (req : DesktopRequest) : List Stage :=
  req.steps.flatMap DesktopStep.stages

end Requests

section Sources

/-- An error of the file system, or the text of a `ValueError`. -/
inductive SourceError where
  | notFound (path : PurePath)
  | value (message : String)
deriving DecidableEq, Repr

/-- `is_relative_to`. -/
def isRelativeTo (path root : PurePath) : Bool :=
  path.absolute = root.absolute ∧ root.parts.isPrefixOf path.parts

def transcribes (req : DesktopRequest) : Bool :=
  (req.steps.map DesktopStep.recipe).head? = some .transcribe

/-- `_output_relative`. -/
def outputRelative (req : DesktopRequest) (sid : String) : Except CliErr PurePath :=
  if transcribes req then (PurePath.ofString sid).withSuffix ".cha" else .ok (.ofString sid)

/-- `ValueError` of `with_suffix`. -/
def emptyName (path : PurePath) : String :=
  "PosixPath('" ++ path.text ++ "') has an empty name"

variable [FileSystem] [PythonText]

open FileSystem

/-- `resolve(strict=True)`. -/
def resolveStrict (path : PurePath) : Except SourceError PurePath :=
  if pathExists path then .ok (resolve path) else .error (.notFound path)

/-- What the loop has taken in: the sources, and what no other source may resolve to. -/
structure Taken where
  sources : List (String × PurePath)
  resolvedSources : List PurePath
  targets : List PurePath

def allowedSuffixes (req : DesktopRequest) : List String :=
  if transcribes req then mediaExtensions else chatExtensions

/-- `f"{req.steps[0].recipe} cannot process {sid}"`. -/
def cannotProcess (req : DesktopRequest) (sid : String) : String :=
  (req.steps.head?.map fun step => step.recipe.text).getD "" ++ " cannot process " ++ sid

/-- One round of the loop of `_sources`. -/
def takeSource (req : DesktopRequest) (root out : PurePath) (taken : Taken) (sid : String) :
    Except SourceError Taken := do
  let relative := PurePath.ofString sid
  require (relative.absolute = false ∧ ".." ∉ relative.parts)
    (.value ("source must be relative to the input folder: " ++ sid))
  let path ← resolveStrict (root.join relative)
  require (isRelativeTo path root = true ∧ isFile path = true)
    (.value ("input is not a file inside the selected folder: " ++ sid))
  require (path ∉ taken.resolvedSources) (.value ("input was selected more than once: " ++ sid))
  require (PythonText.lower path.suffix ∈ allowedSuffixes req) (.value (cannotProcess req sid))
  let output ← (outputRelative req sid).mapError fun _ => .value (emptyName relative)
  let target := resolve (out.join output)
  require (isRelativeTo target out = true)
    (.value ("output escapes the selected folder: " ++ sid))
  require (target ∉ taken.targets) (.value ("multiple inputs would overwrite " ++ target.text))
  .ok ⟨dictSet sid path taken.sources, path :: taken.resolvedSources, target :: taken.targets⟩

/-- The folder that is published to. -/
def outputRoot (req : DesktopRequest) (root : PurePath) : PurePath :=
  if req.inPlace then root else resolve (.ofString req.outputText)

/-- `_sources`. -/
def sources (req : DesktopRequest) :
    Except SourceError (PurePath × List (String × PurePath)) := do
  let root ← resolveStrict (.ofString req.folder)
  require (isDir root = true) (.value "input folder is not a directory")
  let taken ← req.sourceIds.foldlM (takeSource req root (outputRoot req root)) ⟨[], [], []⟩
  .ok (root, taken.sources)

/-- The reference that lies in a folder. -/
def goldIn (folder source : PurePath) (sid : String) : Except String PurePath :=
  let candidates := [folder.join ⟨false, [source.stem ++ ".gold.cha"]⟩,
    folder.join ⟨false, ["template.gold.cha"]⟩]
  match candidates.find? isFile with
  | some path => .ok path
  | none => .error ("no gold reference for " ++ sid)

/-- `_gold`. -/
def gold (step : DesktopStep) (source : PurePath) (sid : String) : Except String PurePath :=
  let relative := PurePath.ofString sid
  match step.goldPath.filter (· ≠ "") with
  | none => goldIn source.parent source sid
  | some goldPath =>
      let supplied := resolve (.ofString goldPath)
      if isFile supplied then .ok supplied
      else
        match relative.withSuffix ".cha" with
        | .error _ => .error (emptyName relative)
        | .ok name =>
            if isFile (supplied.join name) then .ok (supplied.join name)
            else goldIn (supplied.join relative.parent) source sid

end Sources

section Fresh

/-- The items have distinct images, none of which has been seen. -/
def Fresh {α β : Type*} (image : α → β) (items : List α) (seen : List β) : Prop :=
  (items.map image).Nodup ∧ ∀ item ∈ items, image item ∉ seen

theorem fresh_cons_iff {α β : Type*} {image : α → β} {item : α} {items : List α} {seen : List β} :
    Fresh image (item :: items) seen ↔
      image item ∉ seen ∧ Fresh image items (image item :: seen) := by
  unfold Fresh
  simp only [List.map_cons, List.nodup_cons, List.mem_map, not_exists, not_and,
    List.forall_mem_cons]
  simp only [List.mem_cons, not_or]
  constructor
  · rintro ⟨⟨apart, nodup⟩, new, others⟩
    exact ⟨new, nodup, fun other member => ⟨apart other member, others other member⟩⟩
  · rintro ⟨new, nodup, others⟩
    exact ⟨⟨fun other member => (others other member).1, nodup⟩, new,
      fun other member => (others other member).2⟩

theorem fresh_nil_iff {α β : Type*} {image : α → β} {items : List α} :
    Fresh image items [] ↔ (items.map image).Nodup :=
  and_iff_left fun _ _ => List.not_mem_nil

end Fresh

section Accepted

variable [FileSystem] [PythonText] {req : DesktopRequest} {root out : PurePath}

open FileSystem

/-- The file of a source. -/
def sourcePath (root : PurePath) (sid : String) : PurePath :=
  resolve (root.join (.ofString sid))

/-- Where the outcome of a source is published. -/
def targetPath (req : DesktopRequest) (out : PurePath) (sid : String) : PurePath :=
  match outputRelative req sid with
  | .ok output => resolve (out.join output)
  | .error _ => out

/-- What a source has to be, whatever the others are. -/
structure Fits (req : DesktopRequest) (root out : PurePath) (sid : String) : Prop where
  plain : (PurePath.ofString sid).absolute = false ∧ ".." ∉ (PurePath.ofString sid).parts
  found : pathExists (root.join (.ofString sid)) = true
  inside : isRelativeTo (sourcePath root sid) root = true
  file : isFile (sourcePath root sid) = true
  suffix : PythonText.lower (sourcePath root sid).suffix ∈ allowedSuffixes req
  named : ∃ output, outputRelative req sid = .ok output
  published : isRelativeTo (targetPath req out sid) out = true

omit [PythonText] in
theorem resolveStrict_ok_iff {path resolved : PurePath} :
    resolveStrict path = .ok resolved ↔ pathExists path = true ∧ resolved = resolve path := by
  unfold resolveStrict
  split_ifs with found
  · simp [found, eq_comm]
  · simp [found]

/-- The source is taken in exactly if it fits and resolves to nothing that an earlier one
does. -/
theorem takeSource_ok_iff {taken next : Taken} {sid : String} :
    takeSource req root out taken sid = .ok next ↔
      Fits req root out sid ∧ sourcePath root sid ∉ taken.resolvedSources ∧
        targetPath req out sid ∉ taken.targets ∧
        next = ⟨dictSet sid (sourcePath root sid) taken.sources,
          sourcePath root sid :: taken.resolvedSources,
          targetPath req out sid :: taken.targets⟩ := by
  simp only [takeSource, bind_eq_ok_iff, Unique.exists_iff, PUnit.default_eq_unit,
    require_eq_ok_iff, resolveStrict_ok_iff, mapError_eq_ok_iff, Except.ok.injEq]
  constructor
  · rintro ⟨plain, path, ⟨found, rfl⟩, input, fresh, suffix, output, isOutput, published, free,
      rfl⟩
    have target : targetPath req out sid = resolve (out.join output) := by
      rw [targetPath, isOutput]
    rw [← target] at published free ⊢
    exact ⟨⟨plain, found, input.1, input.2, suffix, ⟨output, isOutput⟩, published⟩, fresh, free,
      rfl⟩
  · rintro ⟨fits, fresh, free, rfl⟩
    rcases fits.named with ⟨output, isOutput⟩
    have target : targetPath req out sid = resolve (out.join output) := by
      rw [targetPath, isOutput]
    refine ⟨fits.plain, _, ⟨fits.found, rfl⟩, ⟨fits.inside, fits.file⟩, fresh, fits.suffix,
      output, isOutput, ?_, ?_, ?_⟩
    · rw [← target]
      exact fits.published
    · rwa [← target]
    · rw [target]
      rfl

/-- What the loop has taken in behind the last of the sources. -/
def Taken.extend (req : DesktopRequest) (root out : PurePath) (taken : Taken)
    (ids : List String) : Taken where
  sources := taken.sources ++ ids.map fun sid => (sid, sourcePath root sid)
  resolvedSources := (ids.map (sourcePath root)).reverse ++ taken.resolvedSources
  targets := (ids.map (targetPath req out)).reverse ++ taken.targets

/-- The loop takes in all sources exactly if each fits and no two resolve to the same. -/
theorem foldlM_takeSource_ok_iff {ids : List String} {taken final : Taken}
    (known : ∀ sid ∈ keys taken.sources, sourcePath root sid ∈ taken.resolvedSources) :
    ids.foldlM (takeSource req root out) taken = .ok final ↔
      (∀ sid ∈ ids, Fits req root out sid) ∧
        Fresh (sourcePath root) ids taken.resolvedSources ∧
        Fresh (targetPath req out) ids taken.targets ∧ final = taken.extend req root out ids := by
  induction ids generalizing taken with
  | nil => simp [pure, Except.pure, eq_comm, Fresh, Taken.extend]
  | cons sid ids ih =>
      rw [List.foldlM_cons, bind_eq_ok_iff, List.forall_mem_cons, fresh_cons_iff, fresh_cons_iff]
      have knownNext : ∀ other ∈ keys (dictSet sid (sourcePath root sid) taken.sources),
          sourcePath root other ∈ sourcePath root sid :: taken.resolvedSources := by
        intro other isKey
        rcases mem_keys_dictSet.mp isKey with rfl | earlier
        · exact List.mem_cons_self
        · exact List.mem_cons_of_mem _ (known other earlier)
      have whole (new : sourcePath root sid ∉ taken.resolvedSources) :
          Taken.extend req root out ⟨dictSet sid (sourcePath root sid) taken.sources,
            sourcePath root sid :: taken.resolvedSources,
            targetPath req out sid :: taken.targets⟩ ids =
              taken.extend req root out (sid :: ids) := by
        rw [Taken.extend, dictSet_of_notMem fun again => new (known sid again)]
        simp [Taken.extend]
      constructor
      · rintro ⟨next, took, rest⟩
        rcases takeSource_ok_iff.mp took with ⟨fits, new, free, rfl⟩
        rcases (ih knownNext).mp rest with ⟨fit, sourcesNew, targetsNew, rfl⟩
        exact ⟨⟨fits, fit⟩, ⟨new, sourcesNew⟩, ⟨free, targetsNew⟩, whole new⟩
      · rintro ⟨⟨fits, fit⟩, ⟨new, sourcesNew⟩, ⟨free, targetsNew⟩, rfl⟩
        refine ⟨_, takeSource_ok_iff.mpr ⟨fits, new, free, rfl⟩, ?_⟩
        exact (ih knownNext).mpr ⟨fit, sourcesNew, targetsNew, (whole new).symm⟩

/-- What `sources` gives back, with the folder it resolves. -/
theorem sources_ok_iff {taken : List (String × PurePath)} :
    sources req = .ok (root, taken) ↔
      (pathExists (.ofString req.folder) = true ∧ root = resolve (.ofString req.folder) ∧
        isDir root = true) ∧
        (∀ sid ∈ req.sourceIds, Fits req root (outputRoot req root) sid) ∧
        (req.sourceIds.map (sourcePath root)).Nodup ∧
        (req.sourceIds.map (targetPath req (outputRoot req root))).Nodup ∧
        taken = req.sourceIds.map fun sid => (sid, sourcePath root sid) := by
  simp only [sources, bind_eq_ok_iff, Unique.exists_iff, PUnit.default_eq_unit,
    require_eq_ok_iff, resolveStrict_ok_iff, Except.ok.injEq, Prod.mk.injEq]
  constructor
  · rintro ⟨found, ⟨there, isRoot⟩, isFolder, final, took, rfl, rfl⟩
    rcases (foldlM_takeSource_ok_iff (by simp)).mp took
      with ⟨fit, sourcesNew, targetsNew, rfl⟩
    exact ⟨⟨there, isRoot, isFolder⟩, fit, fresh_nil_iff.mp sourcesNew,
      fresh_nil_iff.mp targetsNew, List.nil_append _⟩
  · rintro ⟨⟨there, isRoot, isFolder⟩, fit, sourcesNew, targetsNew, rfl⟩
    refine ⟨root, ⟨there, isRoot⟩, isFolder,
      Taken.extend req root (outputRoot req root) ⟨[], [], []⟩ req.sourceIds, ?_, rfl,
      List.nil_append _⟩
    exact (foldlM_takeSource_ok_iff (by simp)).mpr
      ⟨fit, fresh_nil_iff.mpr sourcesNew, fresh_nil_iff.mpr targetsNew, rfl⟩

/-- A request is accepted exactly if its folder is there, each source fits, and neither two
sources nor two targets are the same file. The sources keep their order. -/
theorem accepted_iff {taken : List (String × PurePath)} :
    (∃ root, sources req = .ok (root, taken)) ↔
      pathExists (.ofString req.folder) = true ∧ isDir (resolve (.ofString req.folder)) = true ∧
        (∀ sid ∈ req.sourceIds, Fits req (resolve (.ofString req.folder))
          (outputRoot req (resolve (.ofString req.folder))) sid) ∧
        (req.sourceIds.map (sourcePath (resolve (.ofString req.folder)))).Nodup ∧
        (req.sourceIds.map (targetPath req
          (outputRoot req (resolve (.ofString req.folder))))).Nodup ∧
        taken = req.sourceIds.map fun sid =>
          (sid, sourcePath (resolve (.ofString req.folder)) sid) := by
  constructor
  · rintro ⟨root, accepted⟩
    rcases sources_ok_iff.mp accepted with ⟨⟨there, rfl, isFolder⟩, rest⟩
    exact ⟨there, isFolder, rest⟩
  · rintro ⟨there, isFolder, rest⟩
    exact ⟨_, sources_ok_iff.mpr ⟨⟨there, rfl, isFolder⟩, rest⟩⟩

end Accepted

end Batchalign.Desktop
