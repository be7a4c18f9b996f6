import Mathlib

/-!
# Tasks

The stages a pipeline is declared from, and which of them a stage requires.
-/

namespace Batchalign

inductive Task where
  | ai
  | asr
  | fa
  | speaker
  | utSeg
  | utr
  | morphosyntax
  | translate
  | coref
  | compare
  | convert
  | phonetic
deriving DecidableEq, Repr

/-- The upstream tasks of a stage. -/
def Task.requires : Task → List Task
  | .ai => []
  | .asr | .speaker => []
  | .utSeg => [.asr]
  | .utr => []
  | .fa => [.utSeg, .utr]
  | Task.morphosyntax => [.utSeg]
  | .phonetic => [.utSeg, .utr, .fa]
  | .coref => [Task.morphosyntax]
  | .translate => [Task.morphosyntax]
  | .compare => []
  | .convert => []

def Task.asStr : Task → String
  | .ai => "ai"
  | .asr => "asr"
  | .fa => "fa"
  | .speaker => "speaker"
  | .utSeg => "utseg"
  | .utr => "utr"
  | Task.morphosyntax => "morphosyntax"
  | .translate => "translate"
  | .phonetic => "phonetic"
  | .coref => "coref"
  | .compare => "compare"
  | .convert => "convert"

/-- The `Debug` form. -/
def Task.debug : Task → String
  | .ai => "Ai"
  | .asr => "Asr"
  | .fa => "Fa"
  | .speaker => "Speaker"
  | .utSeg => "UtSeg"
  | .utr => "Utr"
  | Task.morphosyntax => "Morphosyntax"
  | .translate => "Translate"
  | .coref => "Coref"
  | .compare => "Compare"
  | .convert => "Convert"
  | .phonetic => "Phonetic"

/-- The length of the longest chain of requirements below a task. -/
def Task.depth : Task → ℕ
  | .utSeg => 1
  | .fa | Task.morphosyntax => 2
  | .phonetic | .coref | .translate => 3
  | _ => 0

theorem Task.depth_requires : ∀ task : Task, ∀ requirement ∈ task.requires,
    requirement.depth < task.depth := by
  intro task
  cases task <;> decide

end Batchalign
