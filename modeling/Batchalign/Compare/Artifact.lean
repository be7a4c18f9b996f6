import Batchalign.Compare.Metrics

/-!
# The row of a comparison in its CSV file

`compare_metrics_to_artifact` of `taskrunners/compare.rs` and the cells that
`metrics_writer.rs` writes for it. The quoting of cells is left out.
-/

namespace Batchalign.Compare

inductive JsonValue where
  | string (text : String)
  | number (n : ℕ)
deriving DecidableEq, Repr

inductive MetricsKind where
  | compare
  | benchmark
  | custom
deriving DecidableEq, Repr

/-- The columns are in the order of their insertion; a later one replaces an earlier one of
the same name. -/
structure MetricsRow where
  rowKind : String
  columns : List (String × JsonValue)
deriving DecidableEq, Repr

structure MetricsArtifact where
  sourceId : String
  producer : String
  kind : MetricsKind
  schema : List String
  rows : List MetricsRow
deriving DecidableEq, Repr

def MetricsRow.get (row : MetricsRow) (column : String) : Option JsonValue :=
  row.columns.reverse.lookup column

/-- The four columns of a part of speech. -/
def posColumns (entry : CompareMetricsPos) : List (String × JsonValue) :=
  [(entry.pos ++ ":matches", .number entry.matchCount),
    (entry.pos ++ ":insertions", .number entry.insertions),
    (entry.pos ++ ":deletions", .number entry.deletions),
    (entry.pos ++ ":total", .number entry.total)]

/-- The columns of every row. -/
def globalColumns [Float64] (m : CompareMetrics) : List (String × JsonValue) :=
  [("file", .string m.fileLabel), ("wer", .string (Float64.format4 m.wer)),
    ("cwer", .string (Float64.format4 m.cwer)),
    ("accuracy", .string (Float64.format4 m.accuracy)), ("matches", .number m.matchCount),
    ("insertions", .number m.insertions), ("deletions", .number m.deletions),
    ("total_gold_words", .number m.totalGoldWords), ("total_main_words", .number m.totalMainWords)]

/-- The columns are inserted in the order of the schema. -/
def compareMetricsToArtifact [Float64] (m : CompareMetrics) (sourceId : String) :
    MetricsArtifact :=
  let columns := globalColumns m ++ m.perPos.flatMap posColumns
  { sourceId := sourceId
    producer := "compare:rust:v3.2"
    kind := .compare
    schema := columns.map Prod.fst
    rows := [{ rowKind := "per_file", columns := columns }] }

/-- `json_cell`. -/
def jsonCell : JsonValue → String
  | .string text => text
  | .number n => toString n

/-- The cells of each line below the header. -/
def csvRows (artifact : MetricsArtifact) : List (List String) :=
  artifact.rows.map fun row =>
    artifact.schema.map fun column => ((row.get column).map jsonCell).getD ""

theorem mem_posColumns {entry : CompareMetricsPos} {column : String × JsonValue}
    (member : column ∈ posColumns entry) : ':' ∈ column.1.toList := by
  simp only [posColumns, List.mem_cons, List.not_mem_nil, or_false] at member
  rcases member with rfl | rfl | rfl | rfl <;> simp

theorem lookup_posColumns {name : String} (plain : ':' ∉ name.toList)
    (entries : List CompareMetricsPos) :
    (entries.flatMap posColumns).reverse.lookup name = none := by
  rw [List.lookup_eq_none_iff]
  intro column member
  rcases List.mem_flatMap.mp (List.mem_reverse.mp member) with ⟨entry, -, isColumn⟩
  rw [bne_iff_ne]
  rintro rfl
  exact plain (mem_posColumns isColumn)

theorem get_file [Float64] (m : CompareMetrics) (rowKind : String) :
    MetricsRow.get ⟨rowKind, globalColumns m ++ m.perPos.flatMap posColumns⟩ "file" =
      some (.string m.fileLabel) := by
  have noPos := @lookup_posColumns "file" (by decide) m.perPos
  simp only [MetricsRow.get]
  rw [List.reverse_append, List.lookup_append, noPos]
  rfl

/-- The one line of a comparison starts with the file label of its metrics. -/
theorem csvRows_file [Float64] (m : CompareMetrics) (sourceId : String) :
    (csvRows (compareMetricsToArtifact m sourceId)).map List.head? = [some m.fileLabel] := by
  have value := get_file m "per_file"
  change [some (((MetricsRow.get _ "file").map jsonCell).getD "")] = _
  rw [value]
  rfl

end Batchalign.Compare
