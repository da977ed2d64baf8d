import Mathlib.Algebra.BigOperators.Group.Finset.Piecewise
import Mathlib.Algebra.Order.BigOperators.Group.Finset
import Mathlib.Order.Interval.Finset.Nat
import Grvy.Ocore.DiskTraffic
import Grvy.Ocore.Options
import Grvy.Ocore.Simulation

/-!
The report of `Summarize` on reads and writes.

The workers count what they ask for and the Ocore tasks what goes to their disks. No task has
served what no worker has sent, under every interleaving, so that the numbers fit together.
-/

namespace Grvy.Ocore

open Grvy.Lib Grvy.Lib.MessagePassing Grvy.Lookup

variable {Block : Type}

/-! ### Requests of all workers -/

/-- A count over some classes of a list. -/
theorem sum_countP_filter {α β : Type} [DecidableEq β] (T : Finset β) (f : α → β) (p : α → Bool)
    (l : List α) :
    ∑ t ∈ T, (l.filter fun x => decide (f x = t)).countP p =
      l.countP fun x => p x && decide (f x ∈ T) := by
  simp only [List.countP_filter]
  induction l with
  | nil => simp
  | cons x l ih =>
      simp only [List.countP_cons, Finset.sum_add_distrib, ih]
      congr 1
      cases hp : p x with
      | false => simp
      | true => simp [Finset.sum_ite_eq]

/-- Ranks of Ocore tasks. -/
def Layout.ocoreRanks (layout : Layout) : Finset ℕ :=
  Finset.Ico layout.startingRank layout.nprocs

/-- Ranks of workers. -/
def Layout.workRanks (layout : Layout) : Finset ℕ := Finset.range layout.startingRank

section Requests

variable {job : Job Block} {s : OcoreState Block}

/-- What a task has served for a worker, the worker has sent to it. -/
theorem countP_servedFor_le (hreach : job.Reachable s) (p : Posted Block → Bool) (rank task : ℕ) :
    ((ocoreOf s task).servedFor rank).countP p ≤
      (issuedTo task (workerOf s rank).issued).countP p := by
  have hlink := (hreach.conversing.link rank task).issued_eq
  change issuedTo task (workerOf s rank).issued = (ocoreOf s task).servedFor rank ++ _ at hlink
  rw [hlink, List.countP_append]
  exact Nat.le_add_right _ _

/-- Only workers are served. -/
theorem source_lt (hreach : job.Reachable s) {task : ℕ} {e : Served Block}
    (he : e ∈ (ocoreOf s task).served) : e.source < job.startingRank := by
  by_contra hsource
  have hnone : (workerOf s e.source).issued = [] := by
    rw [hreach.workerOf_of_ge (Nat.not_lt.mp hsource)]
    rfl
  have hle := countP_servedFor_le hreach (fun _ => true) e.source task
  rw [hnone, List.countP_true] at hle
  have hmem : e.posted ∈ (ocoreOf s task).servedFor e.source :=
    List.mem_map_of_mem (List.mem_filter.mpr ⟨he, decide_eq_true rfl⟩)
  have hpos := List.length_pos_of_mem hmem
  exact absurd (hpos.trans_le hle) (lt_irrefl 0)

theorem countP_served (hreach : job.Reachable s) (p : Posted Block → Bool) (task : ℕ) :
    (ocoreOf s task).served.countP (fun e => p e.posted) =
      ∑ w ∈ job.workRanks, ((ocoreOf s task).servedFor w).countP p := by
  have hall : (ocoreOf s task).served.countP (fun e => p e.posted) =
      (ocoreOf s task).served.countP fun e => p e.posted && decide (e.source ∈ job.workRanks) := by
    refine List.countP_congr fun e he => ?_
    simp [Layout.workRanks, source_lt hreach he]
  rw [hall, ← sum_countP_filter]
  refine Finset.sum_congr rfl fun w _ => ?_
  rw [OcoreTask.servedFor, List.countP_map]
  rfl

/-- All tasks together have not served more than all workers have sent. -/
theorem sum_served_le (hreach : job.Reachable s) (p : Posted Block → Bool) :
    ∑ t ∈ job.ocoreRanks, (ocoreOf s t).served.countP (fun e => p e.posted) ≤
      ∑ w ∈ job.workRanks, (workerOf s w).issued.countP p := by
  calc ∑ t ∈ job.ocoreRanks, (ocoreOf s t).served.countP (fun e => p e.posted)
      = ∑ w ∈ job.workRanks, ∑ t ∈ job.ocoreRanks, ((ocoreOf s t).servedFor w).countP p := by
        rw [Finset.sum_comm]
        exact Finset.sum_congr rfl fun t _ => countP_served hreach p t
    _ ≤ ∑ w ∈ job.workRanks, ∑ t ∈ job.ocoreRanks,
          (issuedTo t (workerOf s w).issued).countP p :=
        Finset.sum_le_sum fun w _ => Finset.sum_le_sum fun t _ => countP_servedFor_le hreach p w t
    _ ≤ ∑ w ∈ job.workRanks, (workerOf s w).issued.countP p := by
        refine Finset.sum_le_sum fun w _ => ?_
        have hsum := sum_countP_filter job.ocoreRanks (fun posted => posted.header.destination) p
          (workerOf s w).issued
        refine hsum.trans_le (List.countP_mono_left fun posted _ hp => ?_)
        rw [Bool.and_eq_true] at hp
        exact hp.1

/-- The storage has seen as many stores as headers that announce data. -/
theorem countP_requests (hreach : job.Reachable s) (task : ℕ) :
    (ocoreOf s task).requests.countP Request.isStore =
        (ocoreOf s task).served.countP (fun e => e.posted.data.isSome) ∧
      ((ocoreOf s task).requests.countP fun r => !r.isStore) =
        (ocoreOf s task).served.countP fun e => !e.posted.data.isSome := by
  have hstore : ∀ e ∈ (ocoreOf s task).served, e.request.isStore = e.posted.data.isSome := by
    intro e he
    rw [← hreach.conversing.stored task e he, Served.request]
    cases e.stored <;> rfl
  rw [OcoreTask.requests, List.countP_map, List.countP_map]
  constructor
  · refine List.countP_congr fun e he => ?_
    rw [Function.comp_apply, hstore e he]
  · refine List.countP_congr fun e he => ?_
    rw [Function.comp_apply, hstore e he]

end Requests

/-! ### The report -/

/-- The calls of `Write_to_Pool`, which are timed as `write_to_pool`. -/
def Worker.poolWrites (w : Worker Block) : ℕ := w.issued.countP fun posted => posted.data.isSome

/-- The calls of `Read_from_Pool`. -/
def Worker.poolReads (w : Worker Block) : ℕ := w.issued.countP fun posted => !posted.data.isSome

/-- The upper halves of `total_written` and `total_read`, which nothing has set. -/
structure Unset where
  written : ℕ
  read : ℕ

/-- A `size_t` after a reduction of `int`s, which sets its lower half. -/
def reduced (upper sum : ℕ) : ℕ := upper * 2 ^ 32 + sum % 2 ^ 32

/-- What `%i` prints of a `size_t`. -/
def shownInt (n : ℕ) : ℤ := (BitVec.ofNat 32 n).toInt

theorem shownInt_reduced (upper : ℕ) {sum : ℕ} (h : sum < 2 ^ 31) :
    shownInt (reduced upper sum) = sum := by
  have hlower : (upper * 2 ^ 32 + sum % 2 ^ 32) % 2 ^ 32 = sum := by omega
  rw [shownInt, reduced, BitVec.toInt_eq_toNat_of_lt]
  · rw [BitVec.toNat_ofNat, hlower]
  · rw [BitVec.toNat_ofNat, hlower]
    omega

/-- The numbers of the master. The totals are as it holds them, not as it prints them. -/
structure Report where
  totalWritten : ℕ
  totalRead : ℕ
  allDiskWritten : ℕ → ℕ
  allDiskRead : ℕ → ℕ
  sumDiskWrites : ℕ
  sumDiskReads : ℕ
  /-- The memory used by a task, in MBs. -/
  usage : ℕ → ℚ

section Report

variable (job : Job Block) (options : ℕ → Options) (q : DumpQueue) (data : Block)

/-- What a timer of an Ocore task has counted. -/
def statsCount (s : OcoreState Block) (count : Request Block → Storage Block → ℕ) (rank : ℕ) : ℕ :=
  Storage.countAlong (options rank).limits q count (ocoreOf s rank).requests
    (initStorage (options rank).limits data)

/-- `Summarize`, when the calls of the workers are over and the Ocore tasks have been left with
`stores`. The totals are what `MPI_Reduce` fills in. -/
def summarize (unset : Unset) (stores : ℕ → Storage Block) (s : OcoreState Block) : Report :=
  let allDisk (count : ℕ → Request Block → Storage Block → ℕ) (rank : ℕ) : ℕ :=
    if (stores rank).overflowTriggered = true ∧ rank ∈ job.ocoreRanks then
      statsCount options q data s (count rank) rank
    else 0
  let allDiskWritten := allDisk fun rank => Storage.diskWrites (options rank).limits q
  let allDiskRead := allDisk fun _ => Storage.diskReads
  { totalWritten := reduced unset.written (∑ w ∈ job.workRanks, (workerOf s w).poolWrites)
    totalRead := reduced unset.read (∑ w ∈ job.workRanks, (workerOf s w).poolReads)
    allDiskWritten := allDiskWritten
    allDiskRead := allDiskRead
    sumDiskWrites := ∑ i ∈ Finset.Ico 1 job.nprocs, allDiskWritten i
    sumDiskReads := ∑ i ∈ Finset.Ico 1 job.nprocs, allDiskRead i
    usage := fun rank =>
      if 0 < allDiskWritten rank then (options 0).maxPoolsizeMBs
      else (stores rank).numActiveRecords * (options 0).blocksize * wordSize / (1024 * 1024) }

/-- No task has failed, and these are the storages they are left with. -/
def Stores (stores : ℕ → Storage Block) (s : OcoreState Block) : Prop :=
  ∀ rank ∈ job.ocoreRanks, ∃ answers,
    Storage.run (options rank).limits q (ocoreOf s rank).requests
      (initStorage (options rank).limits data) = .ok (answers, stores rank)

/-- The workers have made so few calls that no `int` overflows. Each new record counts at most
twice in `num_active_records`. -/
def FewCalls (s : OcoreState Block) : Prop :=
  ∑ w ∈ job.workRanks, (workerOf s w).poolWrites < 2 ^ 30 ∧
    ∑ w ∈ job.workRanks, (workerOf s w).poolReads < 2 ^ 31

/-- What the printed numbers mean. -/
structure Report.Sound (stores : ℕ → Storage Block) (s : OcoreState Block) (report : Report) :
    Prop where
  written : shownInt report.totalWritten = ∑ w ∈ job.workRanks, (workerOf s w).poolWrites
  read : shownInt report.totalRead = ∑ w ∈ job.workRanks, (workerOf s w).poolReads
  /-- Some blocks stay in memory. -/
  writes : 0 < shownInt report.totalWritten → report.sumDiskWrites < shownInt report.totalWritten
  reads : report.sumDiskReads ≤ shownInt report.totalRead
  /-- Nothing is lost by a look at `overflow_triggered`. -/
  counted : ∀ rank ∈ job.ocoreRanks,
    report.allDiskWritten rank =
        statsCount options q data s (Storage.diskWrites (options rank).limits q) rank ∧
      report.allDiskRead rank = statsCount options q data s Storage.diskReads rank
  /-- The memory is that of the records, or all there is once records are on disk. -/
  usage : ∀ rank ∈ job.ocoreRanks,
    report.usage rank =
      if (stores rank).numActiveDiskRecords = 0 then
        ((stores rank).smap.size * (options 0).blocksize * wordSize / (1024 * 1024) : ℚ)
      else (options 0).maxPoolsizeMBs
  usage_le : ∀ rank ∈ job.ocoreRanks, report.usage rank ≤ (options 0).maxPoolsizeMBs

variable {job options q data} {file : Option DiskFile} {dumpStats : ℕ → Bool}
  {stores : ℕ → Storage Block} {s : OcoreState Block} {rank : ℕ}

theorem mem_ocoreRanks : rank ∈ job.ocoreRanks ↔ job.startingRank ≤ rank ∧ rank < job.nprocs := by
  rw [Layout.ocoreRanks, Finset.mem_Ico]

/-- An Ocore task overflows whatever the file says, into a pool of the size that it says. -/
theorem limits_ocore (hstart : initializeOptions file dumpStats = .ok options)
    (hrank : rank ∈ job.ocoreRanks) :
    (options rank).limits.useDiskOverflow = true ∧
      (options rank).limits.maxNumRecords = (options 0).limits.maxNumRecords := by
  obtain ⟨f, -, -, rfl⟩ := initializeOptions_ok hstart
  have hpos := job.startingRank_pos
  have hne : rank ≠ 0 := by
    have := (mem_ocoreRanks.mp hrank).1
    omega
  rw [broadcast_of_ne hne]
  exact ⟨rfl, rfl⟩

/-- Records that fit into the pool take no more memory than it has. -/
theorem memory_le {o : Options} (hsane : o.Sane) (hfits : o.Fits) {n : ℕ}
    (h : n ≤ o.limits.maxNumRecords) :
    (n * o.blocksize * wordSize / (1024 * 1024) : ℚ) ≤ o.maxPoolsizeMBs := by
  rw [Options.limits_eq hsane hfits] at h
  have hbytes : n * (o.blocksize.toNat * wordSize) ≤ o.maxPoolsizeMBs.toNat * 1024 * 1024 :=
    (Nat.mul_le_mul_right _ h).trans (Nat.div_mul_le_self _ _)
  obtain ⟨-, -, hpool, -, hblock⟩ := hsane
  have hblock' : ((o.blocksize.toNat : ℤ) : ℚ) = o.blocksize := by
    rw [Int.toNat_of_nonneg hblock.le]
  have hpool' : ((o.maxPoolsizeMBs.toNat : ℤ) : ℚ) = o.maxPoolsizeMBs := by
    rw [Int.toNat_of_nonneg hpool.le]
  rw [div_le_iff₀ (by norm_num), ← hblock', ← hpool']
  have hcast : ((n * (o.blocksize.toNat * wordSize) : ℕ) : ℚ) ≤
      ((o.maxPoolsizeMBs.toNat * 1024 * 1024 : ℕ) : ℚ) := Nat.cast_le.mpr hbytes
  push_cast at hcast ⊢
  linarith

/-- What is printed for a task is what its timers have counted. -/
theorem allDisk_eq (hstart : initializeOptions file dumpStats = .ok options)
    (hstores : Stores job options q data stores s) (hrank : rank ∈ job.ocoreRanks)
    (unset : Unset) :
    (summarize job options q data unset stores s).allDiskWritten rank =
        statsCount options q data s (Storage.diskWrites (options rank).limits q) rank ∧
      (summarize job options q data unset stores s).allDiskRead rank =
        statsCount options q data s Storage.diskReads rank := by
  obtain ⟨answers, hrun⟩ := hstores rank hrank
  have hlim := (limits_ocore hstart hrank).1
  simp only [summarize, hrank, and_true]
  cases hover : (stores rank).overflowTriggered with
  | true => exact ⟨rfl, rfl⟩
  | false =>
      obtain ⟨-, hwrites, hreads⟩ :=
        Storage.run_still hlim (Storage.inv_initStorage _ _) hrun hover
      exact ⟨hwrites.symm, hreads.symm⟩

theorem usage_eq (hstart : initializeOptions file dumpStats = .ok options)
    (hfits : (options 0).Fits) (hstores : Stores job options q data stores s)
    (hrank : rank ∈ job.ocoreRanks) (unset : Unset) :
    (summarize job options q data unset stores s).usage rank =
        (if (stores rank).numActiveDiskRecords = 0 then
          ((stores rank).smap.size * (options 0).blocksize * wordSize / (1024 * 1024) : ℚ)
        else (options 0).maxPoolsizeMBs) ∧
      (summarize job options q data unset stores s).usage rank ≤ (options 0).maxPoolsizeMBs := by
  obtain ⟨answers, hrun⟩ := hstores rank hrank
  obtain ⟨hlim, hmax⟩ := limits_ocore hstart hrank
  have hfirst := Storage.inv_initStorage (options rank).limits data
  have hinv := (Storage.run_refines hlim hfirst hrun).1
  have hwritten : (summarize job options q data unset stores s).allDiskWritten rank = _ :=
    (allDisk_eq hstart hstores hrank unset).1
  have husage : (summarize job options q data unset stores s).usage rank =
      if 0 < (summarize job options q data unset stores s).allDiskWritten rank then
        ((options 0).maxPoolsizeMBs : ℚ)
      else (stores rank).numActiveRecords * (options 0).blocksize * wordSize / (1024 * 1024) := rfl
  have hiff := Storage.overflowTriggered_eq_false_iff hinv
  by_cases hdisk : (stores rank).numActiveDiskRecords = 0
  · have hover := hiff.mpr hdisk
    obtain ⟨-, hzero, -⟩ := Storage.run_still hlim hfirst hrun hover
    obtain ⟨hcount, hcounted⟩ := Storage.numActiveRecords_of_quiet hinv hover
    rw [hmax] at hcounted
    obtain ⟨f, -, hsane, hoptions⟩ := initializeOptions_ok hstart
    rw [← broadcast_zero, ← hoptions] at hsane
    have hnone : ¬0 < (summarize job options q data unset stores s).allDiskWritten rank := by
      rw [hwritten, statsCount, hzero]
      exact lt_irrefl 0
    rw [husage, if_neg hnone, if_pos hdisk, hcount, Int.cast_natCast]
    exact ⟨rfl, memory_le hsane hfits hcounted⟩
  · have hsome : 0 < (summarize job options q data unset stores s).allDiskWritten rank := by
      rw [hwritten, statsCount]
      refine Nat.pos_of_ne_zero fun hzero => hdisk (hiff.mp ?_)
      exact Storage.run_quiet hlim hfirst rfl hrun hzero
    rw [husage, if_pos hsome, if_neg hdisk]
    exact ⟨rfl, le_refl _⟩

/-- The workers have nothing on a disk of their own. -/
theorem sum_allDisk (f : ℕ → ℕ) (hf : ∀ rank, rank ∉ job.ocoreRanks → f rank = 0) :
    ∑ i ∈ Finset.Ico 1 job.nprocs, f i = ∑ i ∈ job.ocoreRanks, f i := by
  refine (Finset.sum_subset (fun rank hrank => ?_) fun rank _ hnot => hf rank hnot).symm
  have hpos := job.startingRank_pos
  obtain ⟨hlow, hhigh⟩ := mem_ocoreRanks.mp hrank
  exact Finset.mem_Ico.mpr ⟨by omega, hhigh⟩

theorem sumDisk_eq (hstart : initializeOptions file dumpStats = .ok options)
    (hstores : Stores job options q data stores s) (unset : Unset) :
    (summarize job options q data unset stores s).sumDiskWrites =
        ∑ rank ∈ job.ocoreRanks,
          statsCount options q data s (Storage.diskWrites (options rank).limits q) rank ∧
      (summarize job options q data unset stores s).sumDiskReads =
        ∑ rank ∈ job.ocoreRanks, statsCount options q data s Storage.diskReads rank := by
  constructor
  · refine (sum_allDisk _ fun rank hnot => if_neg fun h => hnot h.2).trans ?_
    exact Finset.sum_congr rfl fun rank hrank => (allDisk_eq hstart hstores hrank unset).1
  · refine (sum_allDisk _ fun rank hnot => if_neg fun h => hnot h.2).trans ?_
    exact Finset.sum_congr rfl fun rank hrank => (allDisk_eq hstart hstores hrank unset).2

/-- A task writes less to disk than it is sent. -/
theorem diskWrites_le (hstart : initializeOptions file dumpStats = .ok options)
    (hstores : Stores job options q data stores s) (hrank : rank ∈ job.ocoreRanks) :
    statsCount options q data s (Storage.diskWrites (options rank).limits q) rank ≤
        (ocoreOf s rank).requests.countP Request.isStore ∧
      (0 < (ocoreOf s rank).requests.countP Request.isStore →
        statsCount options q data s (Storage.diskWrites (options rank).limits q) rank <
          (ocoreOf s rank).requests.countP Request.isStore) := by
  obtain ⟨answers, hrun⟩ := hstores rank hrank
  have hlim := (limits_ocore hstart hrank).1
  have hall := Storage.stores_accounted hlim (Storage.inv_initStorage _ _) hrun
  have hzero : (Storage.heldSlots (initStorage (options rank).limits data)).length = 0 := rfl
  rw [hzero, Nat.zero_add] at hall
  refine ⟨?_, Storage.diskWrites_lt hlim hrun⟩
  rw [statsCount, ← hall, Nat.add_assoc]
  exact Nat.le_add_right _ _

/-- Fewer writes went to disk than there were, if there were any. -/
theorem sumDiskWrites_lt (hstart : initializeOptions file dumpStats = .ok options)
    (hreach : job.Reachable s) (hstores : Stores job options q data stores s) (unset : Unset)
    (htotal : 0 < ∑ w ∈ job.workRanks, (workerOf s w).poolWrites) :
    (summarize job options q data unset stores s).sumDiskWrites <
      ∑ w ∈ job.workRanks, (workerOf s w).poolWrites := by
  have hserved := sum_served_le hreach fun posted => posted.data.isSome
  simp only [← (countP_requests hreach _).1] at hserved
  rw [(sumDisk_eq hstart hstores unset).1]
  by_cases hsome : ∃ rank ∈ job.ocoreRanks,
      0 < (ocoreOf s rank).requests.countP Request.isStore
  · obtain ⟨rank, hrank, hpos⟩ := hsome
    refine lt_of_lt_of_le (Finset.sum_lt_sum
      (fun rank hrank => (diskWrites_le hstart hstores hrank).1) ⟨rank, hrank, ?_⟩) hserved
    exact (diskWrites_le hstart hstores hrank).2 hpos
  · rw [Finset.sum_eq_zero fun rank hrank => ?_]
    · exact htotal
    · have hle := (diskWrites_le hstart hstores hrank).1
      have hnone : ¬0 < (ocoreOf s rank).requests.countP Request.isStore :=
        fun hpos => hsome ⟨rank, hrank, hpos⟩
      omega

theorem sumDiskReads_le (hstart : initializeOptions file dumpStats = .ok options)
    (hreach : job.Reachable s) (hstores : Stores job options q data stores s) (unset : Unset) :
    (summarize job options q data unset stores s).sumDiskReads ≤
      ∑ w ∈ job.workRanks, (workerOf s w).poolReads := by
  have hserved := sum_served_le hreach fun posted => !posted.data.isSome
  simp only [← (countP_requests hreach _).2] at hserved
  rw [(sumDisk_eq hstart hstores unset).2]
  refine le_trans (Finset.sum_le_sum fun rank hrank => ?_) hserved
  obtain ⟨answers, hrun⟩ := hstores rank hrank
  have hall := Storage.pulls_accounted (limits_ocore hstart hrank).1
    (Storage.inv_initStorage _ _) hrun
  exact (Nat.le_add_right _ _).trans hall.le

/-- **The report on the disk.** When the calls of the workers are over, in whatever order the
ranks have taken their turns, the numbers of `Summarize` are sound: fewer writes went to disk
than there were, and no more reads came from it. -/
theorem summarize_sound (hstart : initializeOptions file dumpStats = .ok options)
    (hfits : (options 0).Fits) (hreach : job.Reachable s) (hfew : FewCalls job s)
    (hstores : Stores job options q data stores s) (unset : Unset) :
    (summarize job options q data unset stores s).Sound job options q data stores s := by
  have hwritten : shownInt (summarize job options q data unset stores s).totalWritten =
      ∑ w ∈ job.workRanks, (workerOf s w).poolWrites :=
    shownInt_reduced _ (hfew.1.trans (by norm_num))
  have hread : shownInt (summarize job options q data unset stores s).totalRead =
      ∑ w ∈ job.workRanks, (workerOf s w).poolReads := shownInt_reduced _ hfew.2
  refine ⟨hwritten, hread, fun htotal => ?_, ?_,
    fun rank hrank => allDisk_eq hstart hstores hrank unset,
    fun rank hrank => (usage_eq hstart hfits hstores hrank unset).1,
    fun rank hrank => (usage_eq hstart hfits hstores hrank unset).2⟩
  · rw [hwritten] at htotal ⊢
    exact Nat.cast_lt.mpr (sumDiskWrites_lt hstart hreach hstores unset (Nat.cast_pos.mp htotal))
  · rw [hread]
    exact Nat.cast_le.mpr (sumDiskReads_le hstart hreach hstores unset)

end Report

/-! ### A record that is read back -/

/-- A worker writes more records than the pool has room for, and reads the first. -/
def threeRecords : Job ℕ where
  startingRank := 1
  numOcoreTasks := 1
  startingRank_pos := Nat.one_pos
  numOcoreTasks_pos := Nat.one_pos
  allowEmptyRecords := false
  dumpStats := false
  mpiInitializedByOcore := true
  zero := 0
  program _ := [.write 0 10, .write 1 11, .write 2 12, .read 0]

/-- One record goes to disk and comes back from there, although the file disables overflow. The
upper half of a total is not zero. -/
theorem threeRecords_reported :
    ∃ options stores s, initializeOptions (some noOverflowFile) (fun _ => false) = .ok options ∧
      threeRecords.Reachable s ∧ Stores threeRecords options dumpQueue 0 stores s ∧
      (summarize threeRecords options dumpQueue 0 ⟨1, 0⟩ stores s).sumDiskWrites = 1 ∧
      (summarize threeRecords options dumpQueue 0 ⟨1, 0⟩ stores s).sumDiskReads = 1 ∧
      (summarize threeRecords options dumpQueue 0 ⟨1, 0⟩ stores s).totalWritten = 2 ^ 32 + 3 ∧
      (summarize threeRecords options dumpQueue 0 ⟨1, 0⟩ stores s).Sound threeRecords options
        dumpQueue 0 stores s := by
  let turns : List (Event ℕ Comm) :=
    (List.replicate 3 [.send 0 false, .recv 1 0, .send 0 false, .recv 1 0]).flatten ++
      [.send 0 false, .recv 1 0, .send 1 false, .recv 0 1]
  obtain ⟨options, hstart, htest⟩ := exists_ok_of_any
    (x := initializeOptions (some noOverflowFile) (fun _ => false))
    (p := fun options => (options 0).Fits ∧
      (threeRecords.system.performAll turns threeRecords.initState).any fun s =>
        (∑ w ∈ threeRecords.workRanks, (workerOf s w).poolWrites = 3 ∧
          ∑ w ∈ threeRecords.workRanks, (workerOf s w).poolReads = 1) ∧
        (Storage.run (options 1).limits dumpQueue (ocoreOf s 1).requests
          (initStorage (options 1).limits 0)).toOption.any fun result =>
            (summarize threeRecords options dumpQueue 0 ⟨1, 0⟩ (fun _ => result.2) s).sumDiskWrites
              = 1 ∧
            (summarize threeRecords options dumpQueue 0 ⟨1, 0⟩ (fun _ => result.2) s).sumDiskReads
              = 1)
    (by decide +kernel)
  obtain ⟨hfits, hsome⟩ := of_decide_eq_true htest
  obtain ⟨s, hs, hrun⟩ := (Option.any_eq_true _ _).mp hsome
  obtain ⟨⟨hcalls, hreads⟩, hstorage⟩ := of_decide_eq_true hrun
  obtain ⟨⟨answers, st⟩, hstore, hcounts⟩ := exists_ok_of_any hstorage
  obtain ⟨hdiskWrites, hdiskReads⟩ := of_decide_eq_true hcounts
  have hreach : threeRecords.Reachable s := System.reachable_of_performAll .init hs
  have hfew : FewCalls threeRecords s := by
    rw [FewCalls, hcalls, hreads]
    norm_num
  have hstores : Stores threeRecords options dumpQueue 0 (fun _ => st) s := by
    intro rank hrank
    obtain ⟨hlow, hhigh⟩ := mem_ocoreRanks.mp hrank
    have hone : rank = 1 := Nat.le_antisymm (Nat.lt_succ_iff.mp hhigh) hlow
    rw [hone]
    exact ⟨answers, hstore⟩
  refine ⟨options, fun _ => st, s, hstart, hreach, hstores, hdiskWrites, hdiskReads, ?_,
    summarize_sound hstart hfits hreach hfew hstores ⟨1, 0⟩⟩
  change reduced 1 (∑ w ∈ threeRecords.workRanks, (workerOf s w).poolWrites) = 2 ^ 32 + 3
  rw [hcalls]
  rfl

end Grvy.Ocore
