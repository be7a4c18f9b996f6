import Batchalign.Gui.Store

/-!
# Folders and submissions

A folder is shown with the files that a scan has found in it. A batch is submitted with the files
that its first step can work on, as a request to the daemon.
-/

namespace Batchalign.Gui

open Batchalign.Desktop Batchalign.Morphosyntax

section Folders

/-- A file that `list_folder_files` has found. -/
structure FolderFile where
  sourceId : String
  stem : String
  filename : String
  sizeBytes : ℕ
  durationMs : Option ℕ
  kind : FileKind
deriving DecidableEq, Repr

def scanFolder (found : List FolderFile) : List FileRow :=
  found.map fun file =>
    { sourceId := file.sourceId
      stem := file.stem
      filename := file.filename
      sizeBytes := file.sizeBytes
      durationMs := file.durationMs
      kind := file.kind
      status := .queued
      stages := []
      log := [] }

/-- The batch of a folder that has just been opened. -/
def folderBatch (id path : String) (rows : List FileRow) : Batch where
  id := id
  folderPath := path
  inPlace := true
  outputPath := none
  jobOutputPath := none
  pipeline := []
  config := [(.transcribe, []), (.diarize, []), (.align, []), (.morphotag, []), (.translate, []),
    (.compare, [])]
  files := byId rows
  fileOrder := rows.map FileRow.sourceId
  needsDiscovery := false
  discoveryError := none
  state := .idle
  jobId := none
  startedAt := none
  finishedAt := none
  expandedFileId := none

/-- `openFolder`, unless a batch is running. The new folder takes the place of the old one. -/
def openFolder [Browser] (now : ℕ) (id path : String) (found : List FolderFile)
    (state : AppState) : Option AppState :=
  if state.batches.any fun entry => entry.2.state = .running then none
  else
    let cleared := state.tabOrder.foldl (fun state id => reducer now state (.batchClosed id)) state
    some (reducer now cleared (.batchOpened (folderBatch id path (scanFolder found))))

end Folders

section Requests

/-- What the panels take from tables: the codes of the languages, and the arguments of a recipe. -/
class Panels where
  languageCode : String → String
  recipeKwargs : Verb → VerbConfig → List (String × Kwarg)

/-- Whether the name of a file ends with `.gold.cha`, in any case. -/
def isGold (filename : String) : Bool :=
  ".gold.cha".toList.isSuffixOf (filename.toList.map Char.toLower)

def filterFilesForVerb (files : List (String × FileRow)) (fileOrder : List String)
    (verb : Option Verb) : List String :=
  fileOrder.filter fun id =>
    match files.lookup id with
    | some file =>
        if verb = some .transcribe then file.kind = .media
        else file.kind = .chat ∧ isGold file.filename = false
    | none => false

/-- The engines of `ASR_LABELS`. -/
def asrEngines : List String :=
  ["AliyunAsrBackend", "ChatWhisperBackend", "FunAsrBackend", "FunAudioBackend",
    "GoogleGenAIBackend", "OpenAIWhisperBackend", "Qwen3AsrBackend", "RevAI"]

def isCloud (engine : String) : Bool :=
  ["AliyunAsrBackend", "GoogleGenAIBackend", "RevAI"].contains engine

variable [Panels]

def availableAsr (raw : String) (available : Option (List String)) : List String :=
  if Panels.languageCode raw = "" then []
  else
    (asrEngines.filter fun engine => engine = "RevAI" ∨ available.all fun names =>
      names.contains (if engine = "FunAsrBackend" then "FunAudioBackend" else engine)).mergeSort
        fun one other => isCloud one || !isCloud other

def selectedAsr (language : String) (engine : Option String) (available : Option (List String)) :
    String :=
  match engine with
  | some engine => if engine ∈ availableAsr language available then engine else ""
  | none => ""

namespace Batch

variable (batch : Batch)

def settings (verb : Verb) : VerbConfig := (batch.config.lookup verb).getD []

/-- A text that a panel has written. -/
def text? (verb : Verb) (name : String) : Option String :=
  match (batch.settings verb).lookup name with
  | some (.text text) => some text
  | _ => none

def language : String := (batch.text? .transcribe "lang").getD ""

/-- The engine that transcribes, empty if the one of the panel is not available. -/
def engine (available : Option (List String)) : String :=
  selectedAsr batch.language (batch.text? .transcribe "engine") available

def desktopStep (available : Option (List String)) (recipe : Verb) : DesktopStep where
  recipe := recipe
  kwargs := Panels.recipeKwargs recipe
    (if recipe = .transcribe then
      patched (batch.settings .transcribe) [("engine", .text (batch.engine available))]
    else batch.settings recipe)
  goldPath := if recipe = .compare then (batch.text? .compare "gold_path").filter (· ≠ "") else none
  stripWordTiming :=
    recipe = .align ∧ (batch.settings .align).lookup "write_wor" = some (.flag false)
  language := if recipe = .transcribe then some (Panels.languageCode batch.language) else none

end Batch

def buildDesktopRequest (batch : Batch) (settings : SettingsState)
    (available : Option (List String)) : DesktopRequest where
  folder := batch.folderPath
  sourceIds := filterFilesForVerb batch.files batch.fileOrder batch.pipeline.head?
  steps := batch.pipeline.map (batch.desktopStep available)
  inPlace := batch.inPlace
  outputPath := batch.outputPath
  workers := settings.defaultWorkers

/-- The rows of a batch that is submitted. -/
def submittedRows (batch : Batch) (sourceIds : List String) : List FileRow :=
  sourceIds.filterMap fun id => (batch.files.lookup id).map fun file =>
    { file with status := .queued, log := [], stages := makeStages batch.pipeline }

/-- `startBatch` up to its first dispatch: the request and the rows of a batch that can be
started. -/
def submission (state : AppState) (submitting : List String) (batchId : String) :
    Option (DesktopRequest × List FileRow) :=
  match state.batches.lookup batchId with
  | none => none
  | some batch =>
      let available := state.capabilities.bind fun known => known.backendsByTask.lookup "ASR"
      let request := buildDesktopRequest batch state.settings available
      if batch.needsDiscovery ∨ batch.pipeline = [] ∨ batch.state = .running ∨
          batchId ∈ submitting then none
      else if request.sourceIds = [] ∨
          .transcribe ∈ batch.pipeline ∧ batch.engine available = "" then none
      else some (request, submittedRows batch request.sourceIds)

end Requests

end Batchalign.Gui
