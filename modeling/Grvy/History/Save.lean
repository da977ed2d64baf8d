import Grvy.Hdf5.OpenFile

/-!
The historical performance database of `grvy_timer.cpp`: `SaveHistTiming` appends a
measurement to the table of its machine.

A table is a dataset that grows by chunks, with the number of measurements in an
attribute of its group. What the timers and the environment say is given; types and
comments of HDF5 are left out. An `int` that overflows has no value.

`AppendHistData` copies the name of a subtimer into a string that lives for one turn of its
loop, and keeps a pointer to the characters. What is written is found there afterwards.
-/

namespace Grvy.History

open Std (TreeMap)
open Grvy.Lib Grvy.Hdf5

/-! ### Tables -/

/-- `SubTimer_PTable_V1`, for a type of doubles. -/
structure SubTimer (F : Type) where
  timerName : String
  measurement : F
  mean : F
  variance : F
  count : ℕ
  deriving DecidableEq

/-- `TimerPTable_V1` -/
structure Sample (F : Type) where
  experiment : String
  timestamp : String
  userComment : String
  totalTime : F
  numProcs : ℤ
  jobId : ℤ
  codeRevision : String
  flops : F
  envVariables : List String
  subtimers : List (SubTimer F)
  deriving DecidableEq

def perfHistChunksize : ℕ := 100

def ptableVersion : ℤ := 1

/-- A one-dimensional dataset of samples. A cell that has not been written holds
`none`. -/
structure Table (F : Type) where
  extent : ℕ
  cells : ℕ → Option (Sample F)

namespace Table

variable {F : Type}

/-- A table as `SaveHistTiming` creates it. -/
def new : Table F where
  extent := perfHistChunksize
  cells _ := none

/-- Write one cell, which has to be within the extent. -/
def write (coord : ℤ) (sample : Sample F) (t : Table F) : Option (Table F) :=
  if 0 ≤ coord ∧ coord < t.extent then
    some { t with cells := Function.update t.cells coord.toNat (some sample) }
  else none

/-- Read one cell. There are no strings to be read from one that was not written. -/
def read (coord : ℕ) (t : Table F) : Option (Sample F) :=
  if coord < t.extent then t.cells coord else none

/-- `H5Dset_extent` -/
def setExtent (dims : ℤ) (t : Table F) : Option (Table F) :=
  if 0 ≤ dims then
    some { extent := dims.toNat, cells := fun i => if i < dims.toNat then t.cells i else none }
  else none

end Table

/-! ### Saving a measurement -/

/-- What is saved of a timer of the user. -/
structure Reading (F : Type) extends SubTimer F where
  /-- what is where the name was when `H5Dwrite` reads it -/
  found : String
  deriving DecidableEq

/-- What a caller passes, and what the timers, the clock and the environment say. -/
structure Measurement (F : Type) where
  machinename : String
  experiment : String
  comment : String
  timing : F
  numProcs : ℤ
  jobId : ℤ
  codeRevision : String
  flops : F
  timestamp : String
  runtimeEnv : List String
  subtimers : List (Reading F)
  deriving DecidableEq

/-- `GRVY_Hostenv_Class` -/
structure Hostenv where
  osSysname : String
  osRelease : String
  osVersion : String
  cputype : String

/-- What `AppendHistData` fills in, with C strings. -/
def Measurement.record {F : Type} (m : Measurement F) : Sample F where
  experiment := cString m.experiment
  timestamp := cString m.timestamp
  userComment := cString m.comment
  totalTime := m.timing
  numProcs := m.numProcs
  jobId := m.jobId
  codeRevision := cString m.codeRevision
  flops := m.flops
  envVariables := m.runtimeEnv.map cString
  subtimers := m.subtimers.map fun t => { t.toSubTimer with timerName := cString t.timerName }

/-- The header that is written. -/
def Measurement.header {F : Type} (m : Measurement F) : Sample F :=
  { m.record with
    subtimers := m.subtimers.map fun t => { t.toSubTimer with timerName := cString t.found } }

/-- The names of the subtimers are still where they were. -/
def Measurement.NamesKept {F : Type} (m : Measurement F) : Prop :=
  ∀ t ∈ m.subtimers, cString t.found = cString t.timerName

instance {F : Type} (m : Measurement F) : Decidable m.NamesKept :=
  inferInstanceAs (Decidable (∀ t ∈ m.subtimers, _))

theorem Measurement.header_eq_record_iff {F : Type} {m : Measurement F} :
    m.header = m.record ↔ m.NamesKept := by
  simp [header, record, NamesKept]

/-- The machine name `gadd` passes on: the argument of `-m`, or an empty string. -/
def gaddMachine (argument : Option String) : String := argument.getD ""

/-- The value of an expression of type `int`. -/
def int (x : ℤ) : Option ℤ := if -2 ^ 31 ≤ x ∧ x < 2 ^ 31 then some x else none

def toplevel : String := "GRVY/Performance_timings/"

def tablename : String := "PTable"

variable {F : Type} (alloc : Allocator Object)

/-- The library of a process that works with tables. -/
abbrev Library (F : Type) := Hdf5.Library ℤ (Table F)

/-- An object of such a process. -/
abbrev H5 (F : Type) := Hdf5Class ℤ (Table F)

/-- Open existing file or create new one if not present. -/
def openOrCreate (filename : String) (h5 : H5 F) : Option (ℕ × H5 F) :=
  match h5.fileExists alloc filename true with
  | (true, h5) => h5.openFile alloc filename false true
  | (false, h5) => h5.create alloc filename false true

/-- Open/create a group. -/
def groupOpenOrCreate (groupname : String) (h5 : H5 F) : Option (ℕ × H5 F) :=
  match h5.groupExists alloc groupname with
  | (true, h5) => h5.groupOpen alloc groupname
  | (false, h5) => h5.groupCreate alloc groupname

/-- Save environment attributes and the version of the table. -/
def saveAttributes (hostenv : Hostenv) (hostlevel : String) (h5 : H5 F) :
    Option (ℕ × H5 F) := do
  let (_, h5) ← h5.attributeWrite alloc hostlevel "format_version" ptableVersion
  let (_, h5) ← h5.attributeWriteText alloc hostlevel "os_sysname" hostenv.osSysname
  let (_, h5) ← h5.attributeWriteText alloc hostlevel "os_release" hostenv.osRelease
  let (_, h5) ← h5.attributeWriteText alloc hostlevel "os_version" hostenv.osVersion
  let (_, h5) ← h5.attributeWriteText alloc hostlevel "cputype" hostenv.cputype
  h5.attributeWrite alloc hostlevel "num_measurements" 0

/-- Open/create the table of a host. One that could not be created goes unnoticed
here. -/
def tableOpenOrCreate (hostenv : Hostenv) (hostlevel : String) (h5 : H5 F) :
    Option (ℕ × H5 F) :=
  match h5.datasetExists alloc hostlevel tablename with
  | (true, h5) => do
      let (_, h5) ← h5.datasetOpen alloc hostlevel tablename
      some (h5.datasetIds[tablename]?.getD 0, h5)
  | (false, h5) => do
      let (loc, h5) := h5.groupId hostlevel
      let (tableId, lib) := h5.h5dcreate alloc loc tablename .new
      let (_, h5) ← saveAttributes alloc hostenv hostlevel { h5 with toLibrary := lib }
      some (tableId.getD 0, h5)

/-- `AppendHistData`, which asserts that `H5Dwrite` succeeds. -/
def appendHistData (tableId : ℕ) (numMeasurements : ℤ) (sample : Sample F) (h5 : H5 F) :
    Option (H5 F) :=
  (h5.h5dwrite tableId (Table.write numMeasurements sample)).map fun lib =>
    { h5 with toLibrary := lib }

/-- Extend the data set if we are on a chunksize boundary. -/
def extendTable (tableId : ℕ) (numMeasurements : ℤ) (h5 : H5 F) : Option (H5 F) :=
  if numMeasurements % perfHistChunksize = 0 then
    (int (numMeasurements + perfHistChunksize)).map fun dims =>
      { h5 with
        toLibrary := (h5.h5dwrite tableId (Table.setExtent dims)).getD h5.toLibrary }
  else some h5

/-- Append performance data to the table, and count it. -/
def appendAndCount (hostlevel : String) (tableId : ℕ) (sample : Sample F) (h5 : H5 F) :
    Option (H5 F) := do
  let ((_, numMeasurements), h5) ← h5.attributeRead alloc hostlevel "num_measurements"
  let numMeasurements ← numMeasurements
  let h5 ← appendHistData tableId numMeasurements sample h5
  let numMeasurements ← int (numMeasurements + 1)
  let (_, h5) ← h5.attributeWrite alloc hostlevel "num_measurements" numMeasurements
  extendTable tableId numMeasurements h5

/-- `SaveHistTiming`; what is left of the call is the library. -/
def saveHistTiming (hostenv : Hostenv) (m : Measurement F) (filename : String)
    (lib : Library F) : Option (Library F) := do
  let (_, h5) ← openOrCreate alloc filename (.new lib)
  let (_, h5) ← groupOpenOrCreate alloc toplevel h5
  let hostlevel := toplevel ++ m.machinename
  let (_, h5) ← groupOpenOrCreate alloc hostlevel h5
  let (tableId, h5) ← tableOpenOrCreate alloc hostenv hostlevel h5
  let h5 ← appendAndCount alloc hostlevel tableId m.header h5
  let h5 := { h5 with toLibrary := h5.h5dclose tableId }
  some h5.close.2.toLibrary

end Grvy.History
