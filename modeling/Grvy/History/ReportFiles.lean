import Grvy.History.ReportColumns
import Grvy.History.Reporting

/-!
The text files of a machine, with their headers and rows.

Before anything is printed, a file is opened for the experiments one after the other, and
one that cannot be opened ends the program. Each experiment is printed through a stream of
its own. Two of them may name one file, as `ring` and `./ring` do: `fileOf` is the file that
a path names. As the streams are buffered, what such a file holds in the end is not said.
-/

namespace Grvy.History

open Grvy.Lib

variable {F : Type}

/-! ### Streams -/

/-- What is written to the file that has been opened under a path. -/
structure TextFile (F : Type) where
  path : String
  headers : List (Header F)
  lines : List (Line F)

/-- `fp_experiments`: the experiments with the paths of their files. -/
def openStreams (fs : FileSystem) (outdir machine : String) (names : List String) :
    Option (List (String × String)) :=
  names.mapM fun name =>
    let path := outfile outdir machine name
    if fs.canOpen path then some (name, path) else none

/-- All that is written for a machine, unless the program exits. -/
def writeStreams [LT F] [DecidableLT F] [Top F] [Bot F] [Zero F] (fs : FileSystem)
    (options : PrintOptions) (outdir machine : String) (data : List (Sample F)) :
    Option (List (TextFile F)) := do
  let fpExperiments ←
    if options.dumpFiles then openStreams fs outdir machine (experiments data) else some []
  some (fpExperiments.map fun fp =>
    { path := fp.2, headers := headersFor options data fp.1, lines := linesFor options data fp.1 })

/-- A file when all streams are closed. -/
def contentsOf {File : Type} [DecidableEq File] (fileOf : String → File)
    (streams : List (TextFile F)) (file : File) : Option (TextFile F) :=
  match streams.filter fun stream => fileOf stream.path = file with
  | [stream] => some stream
  | _ => none

/-- Different experiments have different files. -/
def OneFileEach {File : Type} (fileOf : String → File) (outdir machine : String)
    (data : List (Sample F)) : Prop :=
  ∀ sample ∈ data, ∀ sample' ∈ data,
    fileOf (outfile outdir machine sample.experiment) =
      fileOf (outfile outdir machine sample'.experiment) →
    sample.experiment = sample'.experiment

instance {File : Type} [DecidableEq File] (fileOf : String → File) (outdir machine : String)
    (data : List (Sample F)) : Decidable (OneFileEach fileOf outdir machine data) :=
  inferInstanceAs (Decidable (∀ sample ∈ data, ∀ sample' ∈ data, _))

instance (fs : FileSystem) (outdir machine : String) (data : List (Sample F)) :
    Decidable (CanWrite fs outdir machine data) :=
  inferInstanceAs (Decidable (∀ sample ∈ data, _))

/-! ### What is opened -/

theorem outfile_eq_iff {outdir machine name name' : String} :
    outfile outdir machine name = outfile outdir machine name' ↔ name = name' := by
  rw [outfile, outfile]
  exact String.append_right_inj _

theorem openStreams_eq (fs : FileSystem) (outdir machine : String) (names : List String) :
    openStreams fs outdir machine names =
      if ∀ name ∈ names, fs.canOpen (outfile outdir machine name) = true then
        some (names.map fun name => (name, outfile outdir machine name))
      else none := by
  induction names with
  | nil => rfl
  | cons name names ih =>
      rw [openStreams] at ih
      rw [openStreams, List.mapM_cons, ih]
      by_cases hopen : fs.canOpen (outfile outdir machine name) = true
      · simp only [hopen, if_true, List.forall_mem_cons, true_and, Option.bind_eq_bind,
          Option.bind_some]
        split <;> rfl
      · simp [hopen]

theorem canWrite_iff {fs : FileSystem} {outdir machine : String} {data : List (Sample F)} :
    (∀ name ∈ experiments data, fs.canOpen (outfile outdir machine name) = true) ↔
      CanWrite fs outdir machine data := by
  constructor
  · exact fun hall sample hsample => hall _ (mem_experiments.mpr ⟨sample, hsample, rfl⟩)
  · intro hcan name hname
    obtain ⟨sample, hsample, rfl⟩ := mem_experiments.mp hname
    exact hcan sample hsample

section Write

variable [LT F] [DecidableLT F] [Top F] [Bot F] [Zero F] {fs : FileSystem}
  {options : PrintOptions} {outdir machine ename : String} {data : List (Sample F)}
  {streams : List (TextFile F)} {sample : Sample F}

/-- What is written for an experiment. -/
def streamFor (options : PrintOptions) (outdir machine : String) (data : List (Sample F))
    (ename : String) : TextFile F where
  path := outfile outdir machine ename
  headers := headersFor options data ename
  lines := linesFor options data ename

/-- Everything is written, or the program has ended before. -/
theorem writeStreams_eq_some (hdump : options.dumpFiles = true) :
    writeStreams fs options outdir machine data = some streams ↔
      CanWrite fs outdir machine data ∧
        streams = (experiments data).map (streamFor options outdir machine data) := by
  rw [writeStreams, if_pos hdump, openStreams_eq, ← canWrite_iff]
  split
  · rename_i hall
    simp only [Option.bind_eq_bind, Option.bind_some, List.map_map, Option.some.injEq]
    exact ⟨fun heq => ⟨hall, heq.symm⟩, fun h => h.2.symm⟩
  · rename_i hnot
    exact iff_of_false (by simp) fun h => hnot h.1

/-- The rows that a stream has are those that are in the file of its path. -/
theorem rows_of_writeStreams (htotals : options.outputTotaltimerRaw = true)
    (hdump : options.dumpFiles = true)
    (hwrite : writeStreams fs options outdir machine data = some streams) {files files' : Files F}
    (hrows : dumpHost fs outdir machine data files = some files') :
    ∀ stream ∈ streams, files' stream.path = some (stream.lines.map Line.toRow) := by
  obtain ⟨hcan, rfl⟩ := (writeStreams_eq_some hdump).mp hwrite
  rw [dumpHost_eq_some hcan, Option.some.injEq] at hrows
  intro stream hstream
  obtain ⟨ename, hename, rfl⟩ := List.mem_map.mp hstream
  obtain ⟨sample, hsample, rfl⟩ := mem_experiments.mp hename
  have hboth : (options.outputTotaltimerRaw && options.dumpFiles) = true := by
    rw [htotals, hdump]
    rfl
  change files' (outfile outdir machine sample.experiment) =
    some ((linesFor options data sample.experiment).map Line.toRow)
  rw [← hrows, hostFiles, if_pos ⟨sample, hsample, rfl⟩, map_toRow_linesFor hboth]
  simp only [outfile_eq_iff]

/-! ### Rows and columns -/

/-- The text has one row for each sample of the experiment, and each row has the values of the
columns in its header. No measurement is without a column. -/
structure LinedUp (data : List (Sample F)) (ename : String) (text : TextFile F) : Prop where
  rows : text.lines.map Line.toRow = (rows data).filter fun row => row.sample.experiment = ename
  columns : ∃ header columns, text.headers = [header] ∧ header.stats.experiment = ename ∧
    header.subtimers = some columns ∧
    ∀ line ∈ text.lines, ∃ cells, line.subtimers = some cells ∧
      cells.map Cell.value = columns.map (fun column => measured line.sample column.name) ∧
      ∀ name, Uses line.sample name → name ∈ columns.map Column.name

theorem linedUp_streamFor (htotals : options.outputTotaltimerRaw = true)
    (hdump : options.dumpFiles = true) (hraw : options.outputSubtimerRaw = true)
    (hsample : sample ∈ data) :
    LinedUp data sample.experiment (streamFor options outdir machine data sample.experiment) := by
  have hboth : (options.outputTotaltimerRaw && options.dumpFiles) = true := by
    rw [htotals, hdump]
    rfl
  refine ⟨map_toRow_linesFor hboth data _, ?_⟩
  refine ⟨_, (columnNames data).map column, headersFor_eq options hdump hsample, rfl, ?_,
    fun line hline => ?_⟩
  · rw [headerOf, if_pos hraw]
  · have hmem := (List.mem_filter.mp hline).1
    obtain ⟨cells, hcells, hvalues⟩ := cells_of_line hboth hraw hmem
    refine ⟨cells, hcells, ?_, fun name huses => ?_⟩
    · rw [hvalues, List.map_map]
      rfl
    · rw [map_name_column, mem_columnNames]
      have hrow : line.toRow ∈ History.rows data :=
        map_toRow_lines hboth data ▸ List.mem_map_of_mem hmem
      exact ⟨line.sample, mem_rows hrow, huses⟩

section Files

variable {File : Type} [DecidableEq File] {fileOf : String → File}

/-- An experiment with a file of its own is all that is in it. -/
theorem contentsOf_streamFor (hown : OneFileEach fileOf outdir machine data)
    (hsample : sample ∈ data) :
    contentsOf fileOf ((experiments data).map (streamFor options outdir machine data))
        (fileOf (outfile outdir machine sample.experiment)) =
      some (streamFor options outdir machine data sample.experiment) := by
  have hmem : sample.experiment ∈ experiments data :=
    mem_experiments.mpr ⟨sample, hsample, rfl⟩
  have hone : (experiments data).filter (fun ename =>
      fileOf (outfile outdir machine ename) =
        fileOf (outfile outdir machine sample.experiment)) = [sample.experiment] := by
    have hsame : ∀ ename ∈ experiments data,
        decide (fileOf (outfile outdir machine ename) =
          fileOf (outfile outdir machine sample.experiment)) =
        decide (ename = sample.experiment) := by
      intro ename hename
      obtain ⟨own, hown', rfl⟩ := mem_experiments.mp hename
      rw [decide_eq_decide]
      exact ⟨hown own hown' sample hsample, fun heq => by rw [heq]⟩
    rw [List.filter_congr hsame, List.filter_eq,
      List.count_eq_one_of_mem (nodup_experiments data) hmem]
    rfl
  have hstreams : ((experiments data).map (streamFor options outdir machine data)).filter
      (fun stream => fileOf stream.path = fileOf (outfile outdir machine sample.experiment)) =
        [streamFor options outdir machine data sample.experiment] := by
    rw [List.filter_map]
    exact congrArg (List.map _) hone
  rw [contentsOf, hstreams]

/-- A file whose contents are known has one experiment. -/
theorem oneFileEach_of_contentsOf
    (hknown : ∀ sample ∈ data, ∃ text,
      contentsOf fileOf ((experiments data).map (streamFor options outdir machine data))
        (fileOf (outfile outdir machine sample.experiment)) = some text) :
    OneFileEach fileOf outdir machine data := by
  intro sample hsample sample' hsample' hsame
  obtain ⟨text, htext⟩ := hknown sample' hsample'
  have hmem : ∀ own ∈ data, fileOf (outfile outdir machine own.experiment) =
      fileOf (outfile outdir machine sample'.experiment) →
      streamFor options outdir machine data own.experiment ∈
        ((experiments data).map (streamFor options outdir machine data)).filter fun stream =>
          fileOf stream.path = fileOf (outfile outdir machine sample'.experiment) := by
    intro own hown heq
    exact List.mem_filter.mpr ⟨List.mem_map_of_mem (mem_experiments.mpr ⟨own, hown, rfl⟩),
      decide_eq_true heq⟩
  have hsampleMem := hmem sample hsample hsame
  have hsampleMem' := hmem sample' hsample' rfl
  rw [contentsOf] at htext
  split at htext
  · rename_i hstreams
    rw [hstreams, List.mem_singleton] at hsampleMem hsampleMem'
    exact outfile_eq_iff.mp (congrArg TextFile.path (hsampleMem.trans hsampleMem'.symm))
  · cases htext

/-- **Rows.** Each sample has one row, in the file of its experiment, and the values of the
row are those of the columns of this file, if and only if the files of all experiments can be
opened and are different files. -/
theorem rows_line_up_iff (fs : FileSystem) (fileOf : String → File) (options : PrintOptions)
    (htotals : options.outputTotaltimerRaw = true) (hdump : options.dumpFiles = true)
    (hraw : options.outputSubtimerRaw = true) (outdir machine : String)
    (data : List (Sample F)) :
    (∃ streams, writeStreams fs options outdir machine data = some streams ∧
      ∀ sample ∈ data, ∃ text,
        contentsOf fileOf streams (fileOf (outfile outdir machine sample.experiment)) =
          some text ∧ LinedUp data sample.experiment text) ↔
      CanWrite fs outdir machine data ∧ OneFileEach fileOf outdir machine data := by
  constructor
  · rintro ⟨streams, hwrite, hlined⟩
    obtain ⟨hcan, rfl⟩ := (writeStreams_eq_some hdump).mp hwrite
    have hknown := fun sample hsample => (hlined sample hsample).imp fun _ h => h.1
    exact ⟨hcan, oneFileEach_of_contentsOf hknown⟩
  · rintro ⟨hcan, hown⟩
    refine ⟨_, (writeStreams_eq_some hdump).mpr ⟨hcan, rfl⟩, fun sample hsample => ?_⟩
    exact ⟨_, contentsOf_streamFor hown hsample, linedUp_streamFor htotals hdump hraw hsample⟩

end Files

end Write

/-! ### Examples -/

/-- The last value of a name is shown, and 0 where there is none. -/
theorem row_of_separate :
    ∃ streams text columns line cells,
      writeStreams writableFiles printAll "out" "hal" separate = some streams ∧
      contentsOf id streams "out/hal/ring" = some text ∧
      text.headers.map Header.subtimers = [some columns] ∧
      columns.map Column.name = ["x", "y"] ∧
      text.lines = [line] ∧ line.subtimers = some cells ∧
      cells.map Cell.value = [((7 : ℕ) : WithTop ℕ), 0] := by
  have hcan : CanWrite writableFiles "out" "hal" separate := by decide +kernel
  have hown : OneFileEach id "out" "hal" separate := by decide +kernel
  obtain ⟨streams, hwrite, hlined⟩ :=
    (rows_line_up_iff writableFiles id printAll rfl rfl rfl "out" "hal" separate).mpr ⟨hcan, hown⟩
  have hsample : exampleSample "ring" "" 3 [("x", 1), ("x", 7)] ∈ separate := List.mem_cons_self
  obtain ⟨text, htext, hrows, header, columns, hheader, -, hcolumns, hcells⟩ := hlined _ hsample
  have hring : (rows separate).filter (fun row => row.sample.experiment = "ring") =
      [{ index := 1, sample := exampleSample "ring" "" 3 [("x", 1), ("x", 7)] }] := by
    decide +kernel
  obtain ⟨line, hline, hrow⟩ := List.map_eq_singleton_iff.mp (hrows.trans hring)
  obtain ⟨cells, hcell, hvalues, -⟩ := hcells line (hline ▸ List.mem_cons_self)
  have hnames : columns.map Column.name = ["x", "y"] := by
    obtain ⟨-, rfl⟩ := (writeStreams_eq_some rfl).mp hwrite
    rw [contentsOf_streamFor hown hsample, Option.some.injEq] at htext
    have hheaders : (headersFor printAll separate "ring").map
        (fun header => header.subtimers.map (List.map Column.name)) = [some ["x", "y"]] := by
      decide +kernel
    rw [← htext] at hheader
    change headersFor printAll separate "ring" = [header] at hheader
    rw [hheader, List.map_singleton, List.singleton_inj, hcolumns, Option.map_some,
      Option.some.injEq] at hheaders
    exact hheaders
  refine ⟨streams, text, columns, line, cells, hwrite, htext, ?_, hnames, hline, hcell, ?_⟩
  · rw [hheader, List.map_singleton, hcolumns]
  · have hsample : line.sample = exampleSample "ring" "" 3 [("x", 1), ("x", 7)] :=
      congrArg Row.sample hrow
    rw [hvalues, hsample]
    change columns.map (measured _ ∘ Column.name) = _
    rw [← List.map_map, hnames]
    decide +kernel

/-- One experiment under two names. -/
def renamed : List (Sample (WithBot (WithTop ℕ))) :=
  [exampleSample "ring" "" 3 [("x", 1)], exampleSample "./ring" "" 4 [("x", 2)]]

/-- A file that is named like a directory is not opened, and of two names for one file not both
have it. -/
theorem dots_not_lined_up :
    (¬∃ streams, writeStreams writableFiles printAll "out" "hal"
      [exampleSample "." "" 3 [("x", 1)]] = some streams) ∧
    ¬∃ streams, writeStreams writableFiles printAll "out" "hal" renamed = some streams ∧
      ∀ sample ∈ renamed, ∃ text,
        contentsOf lastName streams (lastName (outfile "out" "hal" sample.experiment)) =
          some text := by
  constructor
  · rintro ⟨streams, hwrite⟩
    have hcan := ((writeStreams_eq_some rfl).mp hwrite).1
    revert hcan
    decide +kernel
  · rintro ⟨streams, hwrite, hknown⟩
    obtain ⟨-, rfl⟩ := (writeStreams_eq_some rfl).mp hwrite
    have hown := oneFileEach_of_contentsOf hknown
    revert hown
    decide +kernel

end Grvy.History
