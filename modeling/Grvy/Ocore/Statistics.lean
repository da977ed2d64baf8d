import Grvy.Lib.Barriers
import Grvy.Ocore.Client
import Grvy.Ocore.Storage

/-!
The raw statistics file.

`DumpStatistics` runs on every Ocore task at once. The tasks share one file and
take turns on it, with a barrier of `MPI_COMM_OCORE` between two turns: first
the header is written, then each task appends the lines of its records. The
ranks of that communicator start at zero; the header and the loop are written
for ranks that start at one.
-/

namespace Grvy.Ocore

open Std (TreeMap)
open Grvy.Lib.Barriers

/-! ### The file -/

/-- A line of the statistics file. -/
inductive StatsLine
  | comment (text : String)
  | record (index : SizeT) (writeCount readCount mpiRank : ℕ) (inMem : Bool)
  deriving DecidableEq

/-- The statistics file; `none` where there is no file of that name. -/
abbrev StatsFile := Option (List StatsLine)

inductive StatsFailure
  /-- `fopen(statfile,"w")` returns NULL and `Abort` is called. -/
  | unableToCreate
  /-- `fopen(statfile,"a")` returns NULL and `Abort` is called. -/
  | unableToAppend
  /-- `assert(smap.size() > 0)` -/
  | emptySmap
  deriving DecidableEq

abbrev StatsAction := Action StatsFailure StatsFile

/-- `fopen(statfile,"w")`, where `writable` says whether the file can be opened. -/
def fopenWrite (writable : Bool) : StatsAction := fun _ =>
  if writable then .ok (some []) else .error .unableToCreate

/-- `fopen(statfile,"a")` -/
def fopenAppend (writable : Bool) : StatsAction := fun file =>
  if writable then .ok (some (file.getD [])) else .error .unableToAppend

def fprintf (line : StatsLine) : StatsAction := fun file =>
  .ok (file.map fun lines => lines ++ [line])

def assertNotEmpty (smap : TreeMap SparseKey Datagram) : StatsAction := fun file =>
  if 0 < smap.size then .ok file else .error .emptySmap

/-! ### DumpStatistics -/

def statsHeader : List StatsLine :=
  [.comment "#",
    .comment "# libGRVY Out-of-Core Record Statistics",
    .comment "#",
    .comment "# Record Index, Write Count, Read Count, MPI Rank, In-Ram?",
    .comment "#"]

/-- The lines of the records of one task, in map order. -/
def recordLines (mpiRank : ℕ) (smap : TreeMap SparseKey Datagram) : List StatsLine :=
  smap.toList.map fun e => .record e.1.2 e.2.writeCount e.2.readCount mpiRank e.2.inMem

/-- The body of the loop of `DumpStatistics`. -/
def dumpRecordLines (writable : Bool) (mpiRank : ℕ) (smap : TreeMap SparseKey Datagram) :
    List StatsAction :=
  assertNotEmpty smap :: fopenAppend writable :: (recordLines mpiRank smap).map fprintf

/-- What the task with rank `mpiRank` in `MPI_COMM_OCORE` does before each of the
barriers of `DumpStatistics`: the turn with number `i` is the one in which the
loop variable is `i`. -/
def dumpStatistics (writable : Bool) (mpiNprocs mpiRank : ℕ) (smap : TreeMap SparseKey Datagram) :
    ℕ → List StatsAction
  | 0 => if mpiRank = 1 then fopenWrite writable :: statsHeader.map fprintf else []
  | i + 1 =>
      if i + 1 < mpiNprocs ∧ mpiRank = i + 1 then dumpRecordLines writable mpiRank smap else []

/-- The global rank of the task with rank `i` in `MPI_COMM_OCORE`. -/
def Layout.inclRanks (layout : Layout) (i : ℕ) : ℕ := i + layout.startingRank

/-- All Ocore tasks in `DumpStatistics`; `smaps` are the maps of the tasks by
their global rank. -/
def statsSchedule (layout : Layout) (writable : Bool) (smaps : ℕ → TreeMap SparseKey Datagram) :
    Schedule StatsFailure StatsFile where
  procs := layout.numOcoreTasks
  barriers := 1 + (layout.numOcoreTasks - 1)
  turn i mpiRank :=
    dumpStatistics writable layout.numOcoreTasks mpiRank (smaps (layout.inclRanks mpiRank)) i

/-- The header is followed by one line for each record of each task. -/
def StatsComplete (layout : Layout) (smaps : ℕ → TreeMap SparseKey Datagram) (file : StatsFile) :
    Prop :=
  ∃ lines, file = some (statsHeader ++ lines) ∧
    lines.Perm ((List.range layout.numOcoreTasks).flatMap fun mpiRank =>
      recordLines mpiRank (smaps (layout.inclRanks mpiRank)))

/-- Whatever was in the file before, `DumpStatistics` on all Ocore tasks ends
without a failure and leaves a complete file. -/
def DumpsStatistics (layout : Layout) (writable : Bool)
    (smaps : ℕ → TreeMap SparseKey Datagram) : Prop :=
  ∀ file, (statsSchedule layout writable smaps).EveryRun file (StatsComplete layout smaps)

/-! ### Actions on the file -/

@[simp] theorem runActions_fprintf (lines contents : List StatsLine) :
    runActions (lines.map fprintf) (some contents) = .ok (some (contents ++ lines)) := by
  induction lines generalizing contents with
  | nil => rw [List.append_nil]; rfl
  | cons line lines ih =>
      change runActions (lines.map fprintf) (some (contents ++ [line])) = _
      rw [ih, List.append_assoc]
      rfl

theorem runActions_header (writable : Bool) (file : StatsFile) :
    runActions (fopenWrite writable :: statsHeader.map fprintf) file =
      if writable then .ok (some statsHeader) else .error .unableToCreate := by
  cases writable with
  | false => rfl
  | true => exact runActions_fprintf statsHeader []

theorem runActions_dumpRecordLines (mpiRank : ℕ) (smap : TreeMap SparseKey Datagram)
    (contents : List StatsLine) :
    runActions (dumpRecordLines true mpiRank smap) (some contents) =
      if 0 < smap.size then .ok (some (contents ++ recordLines mpiRank smap))
      else .error .emptySmap := by
  by_cases hsize : 0 < smap.size
  · rw [if_pos hsize, ← runActions_fprintf (recordLines mpiRank smap) contents, dumpRecordLines,
      runActions, assertNotEmpty, if_pos hsize]
    rfl
  · rw [if_neg hsize, dumpRecordLines, runActions, assertNotEmpty, if_neg hsize]
    rfl

/-- The turns of a list of tasks succeed where each of them has a record. -/
theorem runActions_turns (smaps : ℕ → TreeMap SparseKey Datagram) (ranks : List ℕ)
    (contents : List StatsLine) (file : StatsFile) :
    runActions (ranks.flatMap fun r => dumpRecordLines true r (smaps r)) (some contents) =
        .ok file ↔
      (∀ r ∈ ranks, 0 < (smaps r).size) ∧
        file = some (contents ++ ranks.flatMap fun r => recordLines r (smaps r)) := by
  induction ranks generalizing contents with
  | nil =>
      change Except.ok (some contents) = Except.ok file ↔ _
      rw [Except.ok.injEq, List.flatMap_nil, List.append_nil, eq_comm]
      simp
  | cons r ranks ih =>
      rw [List.flatMap_cons, runActions_append, runActions_dumpRecordLines, List.flatMap_cons,
        List.forall_mem_cons, ← List.append_assoc]
      by_cases hsize : 0 < (smaps r).size
      · rw [if_pos hsize]
        exact (ih _).trans (by simp [hsize])
      · rw [if_neg hsize]
        constructor
        · intro h
          cases h
        · rintro ⟨⟨h, -⟩, -⟩
          exact absurd h hsize

/-! ### The turns of the tasks -/

variable {layout : Layout} {writable : Bool} {smaps : ℕ → TreeMap SparseKey Datagram}

/-- Before each barrier one task writes at most. -/
theorem eq_of_dumpStatistics_ne_nil {mpiNprocs mpiRank i : ℕ} {smap : TreeMap SparseKey Datagram}
    (h : dumpStatistics writable mpiNprocs mpiRank smap i ≠ []) :
    mpiRank = if i = 0 then 1 else i := by
  cases i with
  | zero =>
      by_contra hne
      exact h (if_neg hne)
  | succ i =>
      by_contra hne
      exact h (if_neg fun hi => hne hi.2)

theorem statsSchedule_takesTurns (layout : Layout) (writable : Bool)
    (smaps : ℕ → TreeMap SparseKey Datagram) :
    (statsSchedule layout writable smaps).TakesTurns := by
  intro i r r' hr hr'
  exact (eq_of_dumpStatistics_ne_nil hr).trans (eq_of_dumpStatistics_ne_nil hr').symm

theorem sequence_zero :
    (statsSchedule layout writable smaps).sequence 0 =
      if 1 < layout.numOcoreTasks then fopenWrite writable :: statsHeader.map fprintf else [] := by
  have halone := statsSchedule_takesTurns layout writable smaps 0
  by_cases hn : 1 < layout.numOcoreTasks
  · rw [if_pos hn, Schedule.sequence]
    exact halone.flatMap_eq hn (List.cons_ne_nil _ _)
  · rw [if_neg hn]
    refine Schedule.flatMap_eq_nil fun r hr => ?_
    have hr' : r < layout.numOcoreTasks := hr
    exact if_neg (by omega)

theorem sequence_succ (i : ℕ) :
    (statsSchedule layout writable smaps).sequence (i + 1) =
      if i + 1 < layout.numOcoreTasks then
        dumpRecordLines writable (i + 1) (smaps (layout.inclRanks (i + 1)))
      else [] := by
  have halone := statsSchedule_takesTurns layout writable smaps (i + 1)
  by_cases hi : i + 1 < layout.numOcoreTasks
  · have hturn : (statsSchedule layout writable smaps).turn (i + 1) (i + 1) =
        dumpRecordLines writable (i + 1) (smaps (layout.inclRanks (i + 1))) :=
      if_pos ⟨hi, rfl⟩
    rw [if_pos hi, ← hturn]
    exact halone.flatMap_eq hi (by rw [hturn]; exact List.cons_ne_nil _ _)
  · rw [if_neg hi]
    exact Schedule.flatMap_eq_nil fun r _ => if_neg fun h => hi h.1

/-- One task alone writes nothing. -/
theorem sequential_of_one (h : layout.numOcoreTasks = 1) :
    (statsSchedule layout writable smaps).sequential = [] := by
  have hbarriers : (statsSchedule layout writable smaps).barriers + 1 = 2 := by
    change 1 + (layout.numOcoreTasks - 1) + 1 = 2
    omega
  rw [Schedule.sequential, hbarriers]
  change (statsSchedule layout writable smaps).sequence 0 ++
    ((statsSchedule layout writable smaps).sequence 1 ++ []) = []
  rw [sequence_zero, sequence_succ, if_neg (by omega), if_neg (by omega)]
  rfl

/-- With several tasks the header comes first, then the records of all tasks but
the first. -/
theorem sequential_of_many (h : 1 < layout.numOcoreTasks) :
    (statsSchedule layout writable smaps).sequential =
      (fopenWrite writable :: statsHeader.map fprintf) ++
        (List.range' 1 (layout.numOcoreTasks - 1)).flatMap fun r =>
          dumpRecordLines writable r (smaps (layout.inclRanks r)) := by
  set n := layout.numOcoreTasks with hn
  obtain ⟨m, hm⟩ : ∃ m, n = m + 1 := ⟨n - 1, by omega⟩
  have hbarriers : (statsSchedule layout writable smaps).barriers + 1 = n + 1 := by
    change 1 + (layout.numOcoreTasks - 1) + 1 = n + 1
    omega
  have hlast : (statsSchedule layout writable smaps).sequence n = [] := by
    rw [hm, sequence_succ, ← hn, hm, if_neg (lt_irrefl _)]
  rw [Schedule.sequential, hbarriers, List.range_eq_range', List.range'_succ, List.flatMap_cons,
    sequence_zero, if_pos h]
  congr 1
  -- the loop ends with the last task, before the barrier with its number
  have hturns : List.range' 1 n = List.range' 1 m ++ [n] := by
    rw [hm, List.range'_1_concat, Nat.add_comm]
  rw [Nat.zero_add, hturns, List.flatMap_append, List.flatMap_singleton, hlast, List.append_nil, hm,
    Nat.add_sub_cancel]
  refine List.flatMap_congr fun r hr => ?_
  obtain ⟨hlow, hhigh⟩ := List.mem_range'_1.mp hr
  obtain ⟨i, rfl⟩ : ∃ i, r = i + 1 := ⟨r - 1, by omega⟩
  rw [sequence_succ, if_pos (by omega)]

/-! ### Completeness -/

/-- The records of all tasks are those of the first and those of the others. -/
theorem recordLines_range {n : ℕ} (hn : 0 < n) (f : ℕ → List StatsLine) :
    (List.range n).flatMap f = f 0 ++ (List.range' 1 (n - 1)).flatMap f := by
  obtain ⟨m, rfl⟩ : ∃ m, n = m + 1 := ⟨n - 1, by omega⟩
  rw [List.range_eq_range', List.range'_succ, List.flatMap_cons, Nat.add_sub_cancel]

theorem recordLines_eq_nil_iff (mpiRank : ℕ) (smap : TreeMap SparseKey Datagram) :
    recordLines mpiRank smap = [] ↔ smap.size = 0 := by
  rw [recordLines, List.map_eq_nil_iff, ← List.length_eq_zero_iff, TreeMap.length_toList]

/-- The file that several tasks leave is complete if the first has no record. -/
theorem statsComplete_iff (layout : Layout) (smaps : ℕ → TreeMap SparseKey Datagram) :
    StatsComplete layout smaps (some (statsHeader ++
        (List.range' 1 (layout.numOcoreTasks - 1)).flatMap fun r =>
          recordLines r (smaps (layout.inclRanks r)))) ↔
      (smaps (layout.inclRanks 0)).size = 0 := by
  have hall := recordLines_range layout.numOcoreTasks_pos fun r =>
    recordLines r (smaps (layout.inclRanks r))
  rw [StatsComplete, hall, ← recordLines_eq_nil_iff 0]
  constructor
  · rintro ⟨lines, hfile, hperm⟩
    obtain rfl := List.append_cancel_left (Option.some.inj hfile)
    have hlen := hperm.length_eq
    rw [List.length_append] at hlen
    exact List.length_eq_zero_iff.mp (by omega)
  · intro hnil
    refine ⟨_, rfl, ?_⟩
    rw [hnil, List.nil_append]

/-- What several tasks leave, one turn after another. -/
theorem runActions_sequential (h : 1 < layout.numOcoreTasks) (file result : StatsFile) :
    runActions (statsSchedule layout writable smaps).sequential file = .ok result ↔
      writable = true ∧
        (∀ i, 1 ≤ i → i < layout.numOcoreTasks → 0 < (smaps (layout.inclRanks i)).size) ∧
        result = some (statsHeader ++
          (List.range' 1 (layout.numOcoreTasks - 1)).flatMap fun r =>
            recordLines r (smaps (layout.inclRanks r))) := by
  rw [sequential_of_many h, runActions_append, runActions_header]
  cases writable with
  | false =>
      constructor
      · intro herror
        cases herror
      · rintro ⟨hfalse, -⟩
        cases hfalse
  | true =>
      refine (runActions_turns (fun r => smaps (layout.inclRanks r)) _ statsHeader result).trans ?_
      rw [eq_self_iff_true, true_and]
      refine and_congr_left fun _ => ⟨fun hall i hlow hhigh => hall i ?_, fun hall r hr => ?_⟩
      · exact List.mem_range'_1.mpr (by omega)
      · obtain ⟨hlow, hhigh⟩ := List.mem_range'_1.mp hr
        exact hall r hlow (by omega)

/-- A single task opens no file, so there is none if there was none before. -/
theorem two_le_of_dumpsStatistics (h : DumpsStatistics layout writable smaps) :
    2 ≤ layout.numOcoreTasks := by
  have hturns := statsSchedule_takesTurns layout writable smaps
  have hpos := layout.numOcoreTasks_pos
  by_contra hone
  obtain ⟨result, hrun, lines, hfile, -⟩ := (Schedule.everyRun_iff hturns none _).mp (h none)
  rw [sequential_of_one (by omega)] at hrun
  cases hrun
  cases hfile

/-- **The statistics file.** `DumpStatistics` leaves a complete file under every
interleaving of the tasks if and only if there are several tasks, the first has
no record, and each of the others has one. -/
theorem dumpsStatistics_iff (layout : Layout) (writable : Bool)
    (smaps : ℕ → TreeMap SparseKey Datagram) :
    DumpsStatistics layout writable smaps ↔
      writable = true ∧ 2 ≤ layout.numOcoreTasks ∧ (smaps (layout.inclRanks 0)).size = 0 ∧
        ∀ i, 1 ≤ i → i < layout.numOcoreTasks → 0 < (smaps (layout.inclRanks i)).size := by
  have hturns := statsSchedule_takesTurns layout writable smaps
  constructor
  · intro h
    have hmany := two_le_of_dumpsStatistics h
    obtain ⟨result, hrun, hcomplete⟩ := (Schedule.everyRun_iff hturns none _).mp (h none)
    obtain ⟨hwritable, hothers, rfl⟩ := (runActions_sequential hmany none result).mp hrun
    exact ⟨hwritable, hmany, (statsComplete_iff layout smaps).mp hcomplete, hothers⟩
  · rintro ⟨hwritable, hmany, hfirst, hothers⟩ file
    have hrun := (runActions_sequential hmany file _).mpr ⟨hwritable, hothers, rfl⟩
    exact (Schedule.everyRun_iff hturns file _).mpr
      ⟨_, hrun, (statsComplete_iff layout smaps).mpr hfirst⟩

/-- One worker and one Ocore task. -/
def oneTask : Layout where
  startingRank := 1
  numOcoreTasks := 1
  startingRank_pos := Nat.one_pos
  numOcoreTasks_pos := Nat.one_pos

/-- The records of a single task are not dumped. -/
theorem oneTask_not_dumpsStatistics :
    ¬DumpsStatistics oneTask true fun _ =>
      (∅ : TreeMap SparseKey Datagram).insert (0, 0)
        { inMem := true, index := 0, readCount := 0, writeCount := 1 } := by
  intro h
  have hmany := two_le_of_dumpsStatistics h
  exact absurd hmany (by decide)

end Grvy.Ocore
