import Mathlib.Algebra.GroupWithZero.Nat
import Grvy.History.SummarizeSpec
import Grvy.Lib.KeyedLoop
import Grvy.Lib.TreeMapCensus

/-!
What `SummarizeHistTiming` prints of the samples of one machine: the statistics of each
experiment, the header of its file and the rows below.

The strings of a sample are C strings. `⊤` and `⊥` are `HUGE_VAL` and `-HUGE_VAL`. The
lines of a header that are the same in every file are left out, and so are the mean and
the variance. A width that overflows has no value.
-/

namespace Grvy.History

open Std (TreeMap)
open Grvy.Lib

/-! ### Widths -/

/-- A `size_t` as an `int`. -/
def intOfSize (n : ℕ) : ℤ := (n : ℤ).bmod (2 ^ 32)

/-- An `int` as a `size_t`. -/
def sizeOfInt (x : ℤ) : ℕ := (x % 2 ^ 64).toNat

def strlen (s : String) : ℕ := s.utf8ByteSize

/-- `%*s` -/
def printPadded (width : ℤ) (s : String) : String :=
  let blanks := String.ofList (List.replicate (width.natAbs - strlen s) ' ')
  if width < 0 then s ++ blanks else blanks ++ s

/-- `numDigits_positive` with a bound for its loop. -/
def numDigitsWithin : ℕ → ℕ → ℕ
  | 0, _ => 0
  | bound + 1, number => if number = 0 then 0 else numDigitsWithin bound (number / 10) + 1

def numDigitsPositive (number : ℕ) : ℕ := numDigitsWithin number number

/-! ### Basic statistics -/

/-- The options that decide what is printed. -/
structure PrintOptions extends Options where
  outputStdout : Bool
  outputSubtimerRaw : Bool
  outputComments : Bool
  outputPrintenv : Bool

/-- `grvy_minmax` -/
structure Minmax (F : Type) where
  value : F
  index : ℕ
  deriving DecidableEq

/-- What the first loop over the samples accumulates. -/
structure Accumulated (F : Type) where
  /-- the run times of each experiment -/
  statistics : TreeMap String (List F)
  maxVals : TreeMap String (Minmax F)
  minVals : TreeMap String (Minmax F)
  maxRevisionWidth : ℤ
  maxCommentWidth : Option ℤ

def Accumulated.start {F : Type} : Accumulated F where
  statistics := ∅
  maxVals := ∅
  minVals := ∅
  maxRevisionWidth := 0
  maxCommentWidth := some 0

variable {F : Type} [LT F] [DecidableLT F] [Top F] [Bot F] [Zero F]

section Extremes

/-- `vals[experiment]`, which is zero when it is new. -/
def minmaxAt (vals : TreeMap String (Minmax F)) (experiment : String) : Minmax F :=
  vals.getD experiment { value := 0, index := 0 }

/-- `vals[experiment].value = value` -/
def setValue (vals : TreeMap String (Minmax F)) (experiment : String) (value : F) :
    TreeMap String (Minmax F) :=
  vals.insert experiment { minmaxAt vals experiment with value := value }

/-- The min check and the max check. -/
def check (better : F → F → Prop) [DecidableRel better] (experiment : String) (runtime : F)
    (i : ℕ) (vals : TreeMap String (Minmax F)) : TreeMap String (Minmax F) :=
  if better runtime (minmaxAt vals experiment).value then
    vals.insert experiment { value := runtime, index := i }
  else vals

end Extremes

/-- The width with room for a comment and its quotes. -/
def widenComment (width : Option ℤ) (comment : String) : Option ℤ :=
  width.bind fun width => int (max (intOfSize (strlen comment)) width + 2)

/-- Accumulate one sample. -/
def accumulate (options : PrintOptions) (acc : Accumulated F) (entry : Sample F × ℕ) :
    Accumulated F :=
  let (sample, i) := entry
  let runtime := sample.totalTime
  let experiment := sample.experiment
  let known := acc.maxVals.contains experiment
  let maxVals := if known then acc.maxVals else setValue acc.maxVals experiment ⊥
  let minVals := if known then acc.minVals else setValue acc.minVals experiment ⊤
  { statistics :=
      acc.statistics.insert experiment (acc.statistics.getD experiment [] ++ [runtime])
    minVals := check (· < ·) experiment runtime i minVals
    maxVals := check (· > ·) experiment runtime i maxVals
    maxRevisionWidth := max (intOfSize (strlen sample.codeRevision)) acc.maxRevisionWidth
    maxCommentWidth :=
      if options.outputComments then widenComment acc.maxCommentWidth sample.userComment
      else acc.maxCommentWidth }

def accumulateAll (options : PrintOptions) (data : List (Sample F)) : Accumulated F :=
  data.zipIdx.foldl (accumulate options) .start

/-! ### Headers -/

/-- A value that is printed with a timestamp, if the index is one of a sample. -/
structure Extreme (F : Type) where
  value : F
  timestamp : Option String
  deriving DecidableEq

/-- The statistics of an experiment as they are printed. -/
structure ExperimentStats (F : Type) where
  experiment : String
  samples : ℕ
  minTime : Extreme F
  maxTime : Extreme F
  deriving DecidableEq

def extreme (data : List (Sample F)) (m : Minmax F) : Extreme F where
  value := m.value
  timestamp := data[m.index]?.map Sample.timestamp

def experimentStats (data : List (Sample F)) (acc : Accumulated F) (ename : String) :
    ExperimentStats F where
  experiment := ename
  samples := (acc.statistics.getD ename []).length
  minTime := extreme data (minmaxAt acc.minVals ename)
  maxTime := extreme data (minmaxAt acc.maxVals ename)

/-- The width of a column of subtimers. -/
def columnWidth (name : String) : ℤ := max 14 (intOfSize (strlen name))

/-- A name in the header, with blanks around it. -/
structure Column where
  name : String
  padL : ℤ
  padR : ℤ
  deriving DecidableEq

def column (name : String) : Column :=
  let blanks := sizeOfInt (columnWidth name - strlen name)
  let padL := intOfSize (blanks / 2)
  { name := name, padL := padL, padR := intOfSize (sizeOfInt (blanks - padL)) }

/-- The header of a file. Columns and comments are there only if they are enabled. -/
structure Header (F : Type) where
  stats : ExperimentStats F
  indexWidth : ℕ
  revisionWidth : ℤ
  subtimers : Option (List Column)
  comment : Option String
  environment : Bool
  deriving DecidableEq

/-- The list of all possible subtimer names, stored as a map. -/
def collectNames (data : List (Sample F)) (names : TreeMap String F) : TreeMap String F :=
  data.foldl (fun names sample =>
    sample.subtimers.foldl (fun names subtimer =>
      if names.contains subtimer.timerName then names
      else names.insert subtimer.timerName 0) names) names

/-- What the loop over the experiments works on. -/
structure Printing (F : Type) where
  maxIndexWidth : ℕ
  maxRevisionWidth : ℤ
  maxCommentWidth : Option ℤ
  aggregateSubtimers : TreeMap String (TreeMap String F)
  stdout : List (ExperimentStats F)
  headers : List (Header F)

def Printing.start (acc : Accumulated F) : Printing F where
  maxIndexWidth := 0
  maxRevisionWidth := acc.maxRevisionWidth
  maxCommentWidth := acc.maxCommentWidth
  aggregateSubtimers := ∅
  stdout := []
  headers := []

def writeHeader (options : PrintOptions) (data : List (Sample F)) (stats : ExperimentStats F)
    (p : Printing F) : Printing F :=
  let ename := stats.experiment
  let maxRevisionWidth := if p.maxRevisionWidth < 8 then 8 else p.maxRevisionWidth
  let digits := numDigitsPositive data.length
  let maxIndexWidth := if digits < 5 then 5 else digits
  let names := collectNames data (p.aggregateSubtimers.getD ename ∅)
  let maxCommentWidth :=
    if options.outputComments then p.maxCommentWidth.map (max 7) else p.maxCommentWidth
  let header : Header F :=
    { stats := stats
      indexWidth := maxIndexWidth
      revisionWidth := maxRevisionWidth
      subtimers := if options.outputSubtimerRaw then some (names.keys.map column) else none
      comment :=
        if options.outputComments then maxCommentWidth.map fun width =>
          printPadded width "Comment"
        else none
      environment := options.outputPrintenv }
  { p with
    maxIndexWidth := maxIndexWidth
    maxRevisionWidth := maxRevisionWidth
    maxCommentWidth := maxCommentWidth
    aggregateSubtimers :=
      if options.outputSubtimerRaw then p.aggregateSubtimers.insert ename names
      else p.aggregateSubtimers
    headers := p.headers ++ [header] }

/-- One experiment of the statistics summary. -/
def printExperiment (options : PrintOptions) (data : List (Sample F)) (acc : Accumulated F)
    (p : Printing F) (ename : String) : Printing F :=
  let stats := experimentStats data acc ename
  let p := if options.outputStdout then { p with stdout := p.stdout ++ [stats] } else p
  if options.dumpFiles then writeHeader options data stats p else p

def printExperiments (options : PrintOptions) (data : List (Sample F)) : Printing F :=
  let acc := accumulateAll options data
  acc.statistics.keys.foldl (printExperiment options data acc) (.start acc)

/-! ### Raw sample data -/

/-- The value of a subtimer in a row. -/
structure Cell (F : Type) where
  width : ℤ
  value : F
  deriving DecidableEq

/-- A row as it is printed. -/
structure Line (F : Type) extends Row F where
  indexWidth : ℕ
  revisionWidth : ℤ
  subtimers : Option (List (Cell F))
  comment : Option String
  environment : List String
  deriving DecidableEq

/-- `set_map_constant_value` -/
def setMapConstantValue (m : TreeMap String F) (newval : F) : TreeMap String F :=
  m.map fun _ _ => newval

/-- Cache the subtimers of a sample in aggregate order. -/
def cacheSubtimers (sample : Sample F) (m : TreeMap String F) : TreeMap String F :=
  sample.subtimers.foldl (fun m subtimer => m.insert subtimer.timerName subtimer.measurement) m

/-- The comment in its quotes, or `N/A`. The opening quote fills the field. -/
def commentField (maxCommentWidth : ℤ) (comment : String) : String :=
  let text := if 0 < strlen comment then comment else "N/A"
  printPadded (intOfSize (sizeOfInt (maxCommentWidth - strlen text - 1))) "\"" ++ text ++ "\""

/-- One sample, and the map as it is left to the next one of its experiment. -/
def printSample (options : PrintOptions) (p : Printing F)
    (aggregate : TreeMap String (TreeMap String F)) (row : Row F) :
    Line F × TreeMap String (TreeMap String F) :=
  let ename := row.sample.experiment
  let cached := cacheSubtimers row.sample (setMapConstantValue (aggregate.getD ename ∅) 0)
  ({ row with
     indexWidth := p.maxIndexWidth
     revisionWidth := p.maxRevisionWidth
     subtimers :=
       if options.outputSubtimerRaw then
         some (cached.toList.map fun e => { width := columnWidth e.1, value := e.2 })
       else none
     comment :=
       if options.outputComments then p.maxCommentWidth.map fun width =>
         commentField width row.sample.userComment
       else none
     environment := if options.outputPrintenv then row.sample.envVariables else [] },
   if options.outputSubtimerRaw then aggregate.insert ename cached else aggregate)

/-- Dump raw sample data. -/
def printSamples (options : PrintOptions) (p : Printing F) :
    List (Row F) → TreeMap String (TreeMap String F) → List (Line F)
  | [], _ => []
  | row :: rows, aggregate =>
      let (line, aggregate) := printSample options p aggregate row
      line :: printSamples options p rows aggregate

/-- All that is printed of a machine. -/
structure HostReport (F : Type) where
  stdout : List (ExperimentStats F)
  headers : List (Header F)
  lines : List (Line F)

def printHost (options : PrintOptions) (data : List (Sample F)) : HostReport F :=
  let p := printExperiments options data
  { stdout := p.stdout
    headers := p.headers
    lines :=
      if options.outputTotaltimerRaw && options.dumpFiles then
        printSamples options p (rows data) p.aggregateSubtimers
      else [] }

end Grvy.History
