import Mathlib.Algebra.Order.Monoid.Unbundled.WithTop
import Mathlib.Data.String.Basic
import Mathlib.Order.Compare
import Grvy.History.HostReportSpec

/-!
The columns of subtimers in the report of a machine.

The header of an experiment lists the names of all samples of the machine, whichever
experiment they are of. So the rows line up with it, but it has columns that none of
them uses unless the experiment has all names itself.
-/

namespace Grvy.History

open Std (TreeMap)
open Grvy.Lib

variable {F : Type} {options : PrintOptions} {data : List (Sample F)} {ename name : String}
  {sample : Sample F} {header : Header F}

/-! ### The columns of an experiment -/

/-- The name is one of a subtimer of the sample. -/
def Uses (sample : Sample F) (name : String) : Prop :=
  ∃ subtimer ∈ sample.subtimers, subtimer.timerName = name

instance : Decidable (Uses sample name) :=
  inferInstanceAs (Decidable (∃ subtimer ∈ sample.subtimers, subtimer.timerName = name))

/-- The names in the header of an experiment are those of its samples, each once, in
order. -/
def OwnColumns (data : List (Sample F)) (header : Header F) : Prop :=
  ∃ columns, header.subtimers = some columns ∧
    (columns.map Column.name).Pairwise (· < ·) ∧
    ∀ name, name ∈ columns.map Column.name ↔
      ∃ sample ∈ data, sample.experiment = header.stats.experiment ∧ Uses sample name

/-- The experiment uses all names that are used. -/
def UsesAll (data : List (Sample F)) (ename : String) : Prop :=
  ∀ sample ∈ data, ∀ subtimer ∈ sample.subtimers,
    ∃ own ∈ data, own.experiment = ename ∧ Uses own subtimer.timerName

instance : Decidable (UsesAll data ename) :=
  inferInstanceAs (Decidable (∀ sample ∈ data, ∀ subtimer ∈ sample.subtimers,
    ∃ own ∈ data, own.experiment = ename ∧ Uses own subtimer.timerName))

section Header

variable [Zero F]

@[simp] theorem map_name_column (names : List String) :
    (names.map column).map Column.name = names := by
  rw [List.map_map]
  exact List.map_id _

theorem columnNames_lt (data : List (Sample F)) : (columnNames data).Pairwise (· < ·) := by
  apply (columnNames_sorted data).imp
  intro a b hab
  exact compare_lt_iff_lt.mp hab

theorem ownColumns_iff (hcolumns : header.subtimers = some ((columnNames data).map column)) :
    OwnColumns data header ↔ UsesAll data header.stats.experiment := by
  constructor
  · rintro ⟨columns, hheader, -, hown⟩ sample hsample subtimer hsubtimer
    rw [hcolumns, Option.some.injEq] at hheader
    rw [← hown, ← hheader, map_name_column, mem_columnNames]
    exact ⟨sample, hsample, subtimer, hsubtimer, rfl⟩
  · intro hall
    refine ⟨_, hcolumns, ?_, fun name => ?_⟩
    · rw [map_name_column]
      exact columnNames_lt data
    · rw [map_name_column, mem_columnNames]
      constructor
      · rintro ⟨sample, hsample, subtimer, hsubtimer, rfl⟩
        exact hall sample hsample subtimer hsubtimer
      · rintro ⟨sample, hsample, -, huses⟩
        exact ⟨sample, hsample, huses⟩

end Header

/-! ### Examples -/

/-- A sample of an example, with its measurements. -/
def exampleSample (experiment comment : String) (time : ℕ) (subtimers : List (String × ℕ)) :
    Sample (WithBot (WithTop ℕ)) where
  experiment := experiment
  timestamp := ""
  userComment := comment
  totalTime := (time : WithTop ℕ)
  numProcs := 1
  jobId := -1
  codeRevision := "unknown"
  flops := 0
  envVariables := []
  subtimers := subtimers.map fun entry =>
    { timerName := entry.1
      measurement := (entry.2 : WithTop ℕ)
      mean := 0
      variance := 0
      count := 1 }

def printAll : PrintOptions where
  dumpFiles := true
  outputTotaltimerRaw := true
  outputStdout := true
  outputSubtimerRaw := true
  outputComments := true
  outputPrintenv := true

/-- Two experiments with the same subtimer, and two with one of their own each. -/
def shared : List (Sample (WithBot (WithTop ℕ))) :=
  [exampleSample "ring" "" 3 [("x", 1)], exampleSample "star" "" 4 [("x", 2)]]

def separate : List (Sample (WithBot (WithTop ℕ))) :=
  [exampleSample "ring" "" 3 [("x", 1), ("x", 7)], exampleSample "star" "" 4 [("y", 2)]]

/-! ### Headers and rows -/

section Report

variable [LT F] [DecidableLT F] [Top F] [Bot F] [Zero F]

/-- The headers that are written to the file of an experiment. -/
def headersFor (options : PrintOptions) (data : List (Sample F)) (ename : String) :
    List (Header F) :=
  (printHost options data).headers.filter fun header => header.stats.experiment = ename

/-- Each experiment has one. -/
theorem headersFor_eq (options : PrintOptions) (hdump : options.dumpFiles = true)
    (hsample : sample ∈ data) :
    headersFor options data sample.experiment =
      [headerOf options data (accumulateAll options data).maxRevisionWidth
        (accumulateAll options data).maxCommentWidth
        (experimentStats data (accumulateAll options data) sample.experiment)] := by
  have hmem : sample.experiment ∈ experiments data :=
    mem_experiments.mpr ⟨sample, hsample, rfl⟩
  rw [headersFor, headers_printHost, if_pos hdump, List.filter_map]
  have hone : (experiments data).filter (fun ename => ename = sample.experiment) =
      [sample.experiment] := by
    rw [List.filter_eq, List.count_eq_one_of_mem (nodup_experiments data) hmem]
    rfl
  exact congrArg (List.map _) hone

/-- **Columns.** The columns of an experiment are its own if and only if it uses all
names that are used. -/
theorem own_columns_iff (options : PrintOptions) (hdump : options.dumpFiles = true)
    (hraw : options.outputSubtimerRaw = true) (hsample : sample ∈ data) :
    ∃ header, headersFor options data sample.experiment = [header] ∧
      (OwnColumns data header ↔ UsesAll data sample.experiment) := by
  refine ⟨_, headersFor_eq options hdump hsample, ownColumns_iff ?_⟩
  rw [headerOf, if_pos hraw]

/-- Two experiments that use the same names have columns of their own. -/
theorem own_columns_of_shared :
    ∃ header, headersFor printAll shared "ring" = [header] ∧ OwnColumns shared header := by
  have hsample : exampleSample "ring" "" 3 [("x", 1)] ∈ shared := List.mem_cons_self
  obtain ⟨header, hheader, hiff⟩ := own_columns_iff printAll rfl rfl hsample
  exact ⟨header, hheader, hiff.mpr (by decide +kernel)⟩

/-- An experiment has a column for what only another one uses. -/
theorem foreign_column_of_separate :
    ∃ header, headersFor printAll separate "ring" = [header] ∧ ¬OwnColumns separate header := by
  have hsample : exampleSample "ring" "" 3 [("x", 1), ("x", 7)] ∈ separate := List.mem_cons_self
  refine ⟨_, headersFor_eq printAll rfl hsample, fun hown => ?_⟩
  have hall := (ownColumns_iff rfl).mp hown
  revert hall
  decide +kernel

/-- The rows that are written to the file of an experiment. -/
def linesFor (options : PrintOptions) (data : List (Sample F)) (ename : String) :
    List (Line F) :=
  (printHost options data).lines.filter fun line => line.sample.experiment = ename

/-- They are those of its samples. -/
theorem map_toRow_linesFor (hboth : (options.outputTotaltimerRaw && options.dumpFiles) = true)
    (data : List (Sample F)) (ename : String) :
    (linesFor options data ename).map Line.toRow =
      (rows data).filter fun row => row.sample.experiment = ename := by
  rw [← map_toRow_lines hboth data, List.filter_map]
  rfl

/-- A row has a value for each name that is used. -/
theorem cells_of_line (hboth : (options.outputTotaltimerRaw && options.dumpFiles) = true)
    (hraw : options.outputSubtimerRaw = true) {line : Line F}
    (hline : line ∈ (printHost options data).lines) :
    ∃ cells, line.subtimers = some cells ∧
      cells.map Cell.value = (columnNames data).map (measured line.sample) := by
  rw [lines_printHost, if_pos hboth] at hline
  obtain ⟨row, -, rfl⟩ := List.mem_map.mp hline
  let cells := (columnNames data).map fun name =>
    { width := columnWidth name, value := measured row.sample name : Cell F }
  refine ⟨cells, ?_, ?_⟩
  · rw [lineOf, if_pos hraw]
  · rw [List.map_map]
    rfl

end Report

end Grvy.History
