import Batchalign.Morphosyntax.Basic

/-!
# Inputs and outputs of the commands

`cli/_common.py` expands the paths of a command line and of a list file into one selection of
files, and derives from each file the path that its outcome is written to. Paths are POSIX paths
as `pathlib` has them; what the file system and the home directory answer is a parameter, which
does not change during a run.
-/

namespace Batchalign.Cli

open Batchalign.Morphosyntax

section Paths

structure PurePath where
  absolute : Bool
  parts : List String
deriving DecidableEq, Repr

namespace PurePath

def text (path : PurePath) : String :=
  if path.absolute then "/" ++ "/".intercalate path.parts
  else if path.parts.isEmpty then "." else "/".intercalate path.parts

def ofString (text : String) : PurePath where
  absolute := text.toList.head? = some '/'
  parts := (splitAt '/' text).filter fun part => part ≠ "" ∧ part ≠ "."

/-- `path / other`. -/
def join (path other : PurePath) : PurePath :=
  if other.absolute then other else { path with parts := path.parts ++ other.parts }

def parent (path : PurePath) : PurePath := { path with parts := path.parts.dropLast }

def name (path : PurePath) : String := path.parts.getLast?.getD ""

/-- A name cut in front of its last dot, if that is neither its first nor its last character. -/
def splitSuffix (name : String) : String × String :=
  let chars := name.toList
  let after := (chars.reverse.takeWhile (· ≠ '.')).length
  if after ≠ 0 ∧ after + 1 < chars.length then
    (String.ofList (chars.take (chars.length - (after + 1))),
      String.ofList (chars.drop (chars.length - (after + 1))))
  else (name, "")

def stem (path : PurePath) : String := (splitSuffix path.name).1

def suffix (path : PurePath) : String := (splitSuffix path.name).2

end PurePath

inductive CliErr where
  | badParameter (message : String)
  | valueError
deriving DecidableEq, Repr

def PurePath.withSuffix (path : PurePath) (suffix : String) : Except CliErr PurePath :=
  if suffix.toList.contains '/' ∨ (suffix ≠ "" ∧ suffix.toList.head? ≠ some '.') ∨ suffix = "." then
    .error .valueError
  else if path.name = "" then .error .valueError
  else .ok { path with parts := path.parts.dropLast ++ [path.stem ++ suffix] }

def PurePath.relativeTo (path root : PurePath) : Except CliErr PurePath :=
  if path.absolute = root.absolute ∧ root.parts.isPrefixOf path.parts then
    .ok ⟨false, path.parts.drop root.parts.length⟩
  else .error .valueError

/-- The longest list that both begin with. -/
def commonParts : List String → List String → List String
  | a :: as, b :: bs => if a = b then a :: commonParts as bs else []
  | _, _ => []

/-- `commonpath` of absolute paths. -/
def commonpath : List PurePath → PurePath
  | [] => ⟨true, []⟩
  | first :: rest => ⟨true, rest.foldl (fun parts path => commonParts parts path.parts) first.parts⟩

end Paths

section Surroundings

class FileSystem where
  cwd : PurePath
  expanduser : PurePath → PurePath
  resolve : PurePath → PurePath
  pathExists : PurePath → Bool
  isFile : PurePath → Bool
  isDir : PurePath → Bool
  /-- The paths below a folder. -/
  rglob : PurePath → List PurePath
  size : PurePath → ℕ
  /-- The lines of a text, or why it cannot be read. -/
  readLines : PurePath → Except String (List String)

variable [FileSystem]

open FileSystem

/-- `absolute()`. -/
def absolutePath (path : PurePath) : PurePath :=
  if path.absolute then path else { cwd.join path with absolute := true }

/-- `abspath`, which takes `..` back from the text of the path. -/
def abspath (path : PurePath) : PurePath where
  absolute := true
  parts := (absolutePath path).parts.foldl
    (fun parts part => if part = ".." then parts.dropLast else parts ++ [part]) []

end Surroundings

section Inputs

variable [FileSystem] [PythonText]

open FileSystem

structure InputSelection where
  paths : List PurePath
  root : PurePath
deriving DecidableEq, Repr

def chatExtensions : List String := [".cha", ".chat"]

def mediaExtensions : List String :=
  [".wav", ".mp3", ".m4a", ".flac", ".ogg", ".mp4", ".mov", ".m4v"]

def startsWithDot (name : String) : Bool := name.toList.head? = some '.'

/-- The order of `Path` objects. -/
def pathLe (a b : PurePath) : Prop := a.parts ≤ b.parts

/-- Larger files first, then by the text of the path. -/
def largestFirst (a b : PurePath) : Prop :=
  size b < size a ∨ size a = size b ∧ a.text ≤ b.text

instance : DecidableRel pathLe := fun a b => inferInstanceAs (Decidable (a.parts ≤ b.parts))

instance : DecidableRel largestFirst := fun a b =>
  inferInstanceAs (Decidable (size b < size a ∨ size a = size b ∧ a.text ≤ b.text))

def walk (folder : PurePath) (suffixes : List String) : List PurePath :=
  let sset := suffixes.map PythonText.lower
  if isFile folder then
    if startsWithDot folder.name then [] else [absolutePath folder]
  else
    let out := ((rglob folder).insertionSort pathLe).filter fun p =>
      isFile p && ! startsWithDot p.name && sset.contains (PythonText.lower p.suffix)
    (out.map absolutePath).insertionSort largestFirst

def rootFor (folder : PurePath) : PurePath :=
  if isDir folder then absolutePath folder else absolutePath folder.parent

/-- Whether a line of a list file is passed over. -/
def isComment (line : String) : Bool :=
  strip line = "" || (line.toList.dropWhile isSpace).head? = some '#'

def listEntry (inputList : PurePath) (line : String) (number : ℕ) : Except CliErr PurePath :=
  let entry := expanduser (.ofString (strip line))
  let entry := if entry.absolute then entry else (absolutePath inputList).parent.join entry
  if pathExists entry then .ok entry
  else .error (.badParameter (inputList.text ++ ":" ++ toString number ++
    ": input path does not exist: " ++ entry.text))

def listEntries (inputList : PurePath) : Except CliErr (List PurePath) :=
  match readLines inputList with
  | .error exc =>
      .error (.badParameter ("cannot read input list " ++ inputList.text ++ ": " ++ exc))
  | .ok lines => ((lines.zipIdx 1).filter (! isComment ·.1)).mapM fun (line, number) =>
      listEntry inputList line number

/-- `files.setdefault(path.resolve(), path)`. -/
def addFile (files : List (PurePath × PurePath)) (path : PurePath) : List (PurePath × PurePath) :=
  if files.any (·.1 == resolve path) then files else files ++ [(resolve path, path)]

/-- The selection of the entries. -/
def select (entries : List PurePath) (suffixes : List String) : Except CliErr InputSelection :=
  if entries.isEmpty then .error (.badParameter "provide input paths or -i/--input-list FILE")
  else
    let entries := entries.map fun entry => abspath (expanduser entry)
    match entries.find? fun entry => ! isFile entry && ! isDir entry with
    | some entry =>
        .error (.badParameter ("input is not a file or directory: " ++ entry.text))
    | none =>
        let files := (entries.flatMap (walk · suffixes)).foldl addFile []
        .ok ⟨files.map Prod.snd, commonpath (entries.map rootFor)⟩

def resolveInputs (paths : List PurePath) (inputList : Option PurePath) (suffixes : List String) :
    Except CliErr InputSelection :=
  match inputList with
  | none => select paths suffixes
  | some inputList =>
      match listEntries inputList with
      | .error error => .error error
      | .ok listed => select (paths ++ listed) suffixes

end Inputs

section Outputs

variable [FileSystem]

open FileSystem

/-- The suffixes that the commands write: that of the source, or that of a transcript. -/
def outputSuffixes : List (Option String) := [none, some ".cha"]

def safeResolve (path root : PurePath) : Except CliErr PurePath :=
  let p := resolve (expanduser path)
  let r := resolve (expanduser root)
  match p.relativeTo r with
  | .ok _ => .ok p
  | .error _ => .error (.badParameter ("path " ++ p.text ++ " escapes root " ++ r.text ++
      "; refusing to operate outside the configured root"))

def replaceSuffix (path : PurePath) : Option String → Except CliErr PurePath
  | none => .ok path
  | some outputSuffix => if outputSuffix = "" then .ok path else path.withSuffix outputSuffix

/-- The path that `write_outcome` writes an outcome to. The source id is the text of the
selected path. -/
def outcomeTarget (sourceId : Option PurePath) (root : PurePath) (outDir : Option PurePath)
    (outputSuffix : Option String) : Except CliErr PurePath :=
  match sourceId with
  | none => .error (.badParameter "outcome missing source_id; cannot determine output path")
  | some src =>
      match outDir with
      | none => replaceSuffix src outputSuffix
      | some dir => do
          let rel ← src.relativeTo root
          let rel ← replaceSuffix rel outputSuffix
          let target := dir.join rel
          let _ ← safeResolve target.parent (resolve dir)
          pure target

end Outputs

end Batchalign.Cli
