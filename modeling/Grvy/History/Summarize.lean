import Grvy.History.SaveSpec

/-!
`SummarizeHistTiming` of `grvy_timer.cpp`: the tables of all machines found in the
database are written to files, one for each machine and experiment.

A file is what has been written to it by rows; the header above them and the columns
of a row are left out. An `int` that is used before it is set has no value.
-/

namespace Grvy.History

open Std (TreeMap TreeSet)
open Grvy.Lib Grvy.Hdf5

/-! ### Files -/

/-- What a line shows: a sample, numbered among those of its machine. -/
structure Row (F : Type) where
  index : ℕ
  sample : Sample F
  deriving DecidableEq

/-- The files that are written, by path. -/
abbrev Files (F : Type) := String → Option (List (Row F))

/-- Which paths `fopen` opens for writing, after `grvy_check_file_path` has created
their directories. No directory is opened. -/
structure FileSystem where
  canOpen : String → Bool
  directory : ∀ path name, name = "" ∨ name = "." ∨ name = ".." →
    canOpen (path ++ "/" ++ name) = false

def outfile (outdir machine experiment : String) : String :=
  outdir ++ "/" ++ machine ++ "/" ++ experiment

/-- The options that decide what is written to files. -/
structure Options where
  dumpFiles : Bool
  outputTotaltimerRaw : Bool

variable {F : Type}

/-- The names under which statistics are kept. -/
def experiments (data : List (Sample F)) : List String :=
  (data.foldl (fun names sample => names.insert sample.experiment) (∅ : TreeSet String)).toList

/-- Open an empty file for each experiment; one that cannot be opened ends the program. -/
def openFiles (fs : FileSystem) (outdir machine : String) (names : List String)
    (files : Files F) : Option (Files F) :=
  names.foldlM (fun files name =>
    let path := outfile outdir machine name
    if fs.canOpen path then some (Function.update files path (some [])) else none) files

/-- Write a line to the file of its experiment. -/
def writeRow (outdir machine : String) (files : Files F) (row : Row F) : Files F :=
  let path := outfile outdir machine row.sample.experiment
  Function.update files path ((files path).map (· ++ [row]))

/-- The lines for the samples of a machine. -/
def rows (data : List (Sample F)) : List (Row F) :=
  data.zipIdx.map fun entry => { index := entry.2 + 1, sample := entry.1 }

/-- Dump raw sample data. -/
def dumpRows (outdir machine : String) (data : List (Sample F)) (files : Files F) : Files F :=
  (rows data).foldl (writeRow outdir machine) files

/-! ### Reading the database -/

variable (alloc : Allocator Object)

/-- `ReadAllHostData` -/
def readAllHostData (machine : String) (tableId : ℕ) (h5 : H5 F) :
    Option (List (Sample F) × H5 F) := do
  let ((_, numMeasurements), h5) ← h5.attributeRead alloc machine "num_measurements"
  let numMeasurements ← numMeasurements
  let nrecords := (numMeasurements % 2 ^ 64).toNat
  let data ← (List.range nrecords).mapM fun i => h5.h5dread tableId (Table.read i)
  some (data, h5)

/-- What the loop over the machines has: the version read last, the object and the
files. -/
structure Loop (F : Type) where
  version : Option ℤ
  h5 : H5 F
  files : Files F

/-- One machine of the main loop. Whether the attributes can be read is not looked at. -/
def summarizeHost (fs : FileSystem) (options : Options) (outdir : String) (loop : Loop F)
    (name : String) : Option (Loop F) := do
  let machine := toplevel ++ name
  let ((_, version), h5) ← loop.h5.attributeRead alloc machine "format_version"
  let version := version.or loop.version
  let (_, h5) ← h5.attributeReadText alloc machine "os_sysname"
  let (_, h5) ← h5.attributeReadText alloc machine "os_release"
  let (_, h5) ← h5.attributeReadText alloc machine "os_version"
  let (_, h5) ← h5.attributeReadText alloc machine "cputype"
  -- `CreateHistType` knows one version only.
  if version = some ptableVersion then do
    let (tableId, h5) ← h5.ptableOpen alloc machine tablename
    let (data, h5) ← readAllHostData alloc machine tableId h5
    let h5 := { h5 with toLibrary := h5.h5dclose tableId }
    let files ←
      if options.dumpFiles then openFiles fs outdir name (experiments data) loop.files
      else some loop.files
    let files :=
      if options.outputTotaltimerRaw && options.dumpFiles then dumpRows outdir name data files
      else files
    some { version := version, h5 := h5, files := files }
  else none

/-- What a call that returns has done: the machines it has visited, and the files. -/
structure Summary (F : Type) where
  machines : List String
  files : Files F

/-- `SummarizeHistTiming` -/
def summarizeHistTiming (fs : FileSystem) (native : NativeOrder) (options : Options)
    (filename outdir : String) (files : Files F) (lib : Library F) : Option (Summary F) := do
  let (_, h5) ← (Hdf5Class.new lib).openFile alloc filename true true
  let (_, h5) ← h5.groupOpen alloc toplevel
  let (machines, h5) ← h5.listSubGroups alloc native toplevel
  let loop ← machines.foldlM (summarizeHost alloc fs options outdir)
    { version := none, h5 := h5, files := files }
  some { machines := machines, files := loop.files }

/-! ### The parts of a call -/

/-- `SummarizeHistTiming` up to its loop over the machines. -/
def openHistory (native : NativeOrder) (filename : String) (lib : Library F) :
    Option (List String × H5 F) := do
  let (_, h5) ← (Hdf5Class.new lib).openFile alloc filename true true
  let (_, h5) ← h5.groupOpen alloc toplevel
  h5.listSubGroups alloc native toplevel

theorem summarizeHistTiming_eq_openHistory (fs : FileSystem) (native : NativeOrder)
    (options : Options) (filename outdir : String) (files : Files F) (lib : Library F) :
    summarizeHistTiming alloc fs native options filename outdir files lib =
      (openHistory alloc native filename lib).bind fun start =>
        (start.1.foldlM (summarizeHost alloc fs options outdir)
          { version := none, h5 := start.2, files := files }).map fun loop =>
            { machines := start.1, files := loop.files } := by
  simp only [summarizeHistTiming, openHistory, Option.bind_eq_bind, Option.bind_assoc,
    Option.map_eq_bind, Function.comp_def]

/-- One machine of the loop, up to the end of `ReadAllHostData`. -/
def readHost (loop : Loop F) (name : String) : Option (List (Sample F) × Loop F) := do
  let machine := toplevel ++ name
  let ((_, version), h5) ← loop.h5.attributeRead alloc machine "format_version"
  let version := version.or loop.version
  let (_, h5) ← h5.attributeReadText alloc machine "os_sysname"
  let (_, h5) ← h5.attributeReadText alloc machine "os_release"
  let (_, h5) ← h5.attributeReadText alloc machine "os_version"
  let (_, h5) ← h5.attributeReadText alloc machine "cputype"
  if version = some ptableVersion then do
    let (tableId, h5) ← h5.ptableOpen alloc machine tablename
    let (data, h5) ← readAllHostData alloc machine tableId h5
    let h5 := { h5 with toLibrary := h5.h5dclose tableId }
    some (data, { loop with version := version, h5 := h5 })
  else none

/-- What is written of the samples of a machine. -/
def writeHost (fs : FileSystem) (options : Options) (outdir name : String)
    (data : List (Sample F)) (files : Files F) : Option (Files F) := do
  let files ←
    if options.dumpFiles then openFiles fs outdir name (experiments data) files
    else some files
  some (if options.outputTotaltimerRaw && options.dumpFiles then
    dumpRows outdir name data files else files)

theorem summarizeHost_eq_readHost (fs : FileSystem) (options : Options) (outdir : String)
    (loop : Loop F) (name : String) :
    summarizeHost alloc fs options outdir loop name =
      (readHost alloc loop name).bind fun out =>
        (writeHost fs options outdir name out.1 out.2.files).map fun files =>
          { out.2 with files := files } := by
  simp only [summarizeHost, readHost, writeHost, Option.bind_eq_bind, Option.bind_assoc,
    Option.map_eq_bind, Function.comp_def, Option.bind_some]
  congr! 10
  split
  · simp only [Option.bind_assoc, Option.bind_some]
    cases options.dumpFiles <;> simp only [Bool.false_eq_true, if_false, if_true,
      Option.bind_some, Option.bind_assoc]
  · rfl

end Grvy.History
