import Grvy.Ocore.Simulation

/-!
A worker reads its own writes.

The data message that an Ocore task receives for a write is the one its worker
sent for that header; a read delivers the block that the same worker wrote last
under the index; and what a worker reads depends on its own program alone, so
no other worker changes it, whichever indices it uses.
-/

namespace Grvy.Ocore

open Std (TreeMap)
open Grvy.Lib
open Grvy.Lib.MessagePassing

variable {Block : Type} {job : Job Block} {s : OcoreState Block}

/-! ### Sequential programs -/

section Sequential

variable {allowEmpty : Bool} {zero : Block}

/-- The block that a call writes under an index. -/
def Call.writes (index : SizeT) : Call Block → Option Block
  | .write index' data => if index' = index then some data else none
  | _ => none

/-- The block of the most recent `Write(index)`. -/
def lastWrite (index : SizeT) (calls : List (Call Block)) : Option Block :=
  calls.reverse.findSome? (Call.writes index)

@[simp] theorem lastWrite_cons (index : SizeT) (c : Call Block) (calls : List (Call Block)) :
    lastWrite index (c :: calls) = (lastWrite index calls).or (c.writes index) := by
  rw [lastWrite, List.reverse_cons, List.findSome?_append]
  cases h : c.writes index <;> simp [lastWrite, h]

/-- Without pops a record is what was written last under its index. -/
theorem Call.runAll_records {calls : List (Call Block)} (hcalls : ∀ c ∈ calls, c ≠ .popRecord)
    {records records' : TreeMap SizeT Block} {outcomes : List (Outcome Block)}
    (h : runAll allowEmpty zero calls records = some (outcomes, records')) (index : SizeT) :
    records'[index]? = (lastWrite index calls).or records[index]? := by
  induction calls generalizing records outcomes with
  | nil =>
      cases h
      rfl
  | cons c calls ih =>
      obtain ⟨⟨outcome, records₁⟩, hrun, hrest⟩ := Option.bind_eq_some_iff.mp h
      obtain ⟨⟨outcomes₁, records₂⟩, hall, heq⟩ := Option.bind_eq_some_iff.mp hrest
      cases heq
      rw [ih (fun c' hc' => hcalls c' (List.mem_cons_of_mem _ hc')) hall, lastWrite_cons,
        Option.or_assoc]
      congr 1
      cases c with
      | write index' data =>
          cases hrun
          rcases eq_or_ne index index' with rfl | hne
          · simp [Call.writes]
          · rw [getElem?_insert_of_ne hne, Call.writes, if_neg (Ne.symm hne), Option.none_or]
      | read index' =>
          have hsame : records₁ = records := by
            cases hrecord : records[index']? with
            | some data =>
                simp only [Call.run, hrecord, Option.some.injEq, Prod.mk.injEq] at hrun
                exact hrun.2.symm
            | none =>
                simp only [Call.run, hrecord, Option.ite_none_right_eq_some, Option.some.injEq,
                  Prod.mk.injEq] at hrun
                exact hrun.2.2.symm
          have hnone : (Call.read index' : Call Block).writes index = none := rfl
          rw [hsame, hnone, Option.none_or]
      | popRecord => exact absurd rfl (hcalls _ List.mem_cons_self)

/-- A call returns what it returns after the calls before it. -/
theorem Call.runAll_getElem? {calls : List (Call Block)} {records records' : TreeMap SizeT Block}
    {outcomes : List (Outcome Block)}
    (h : runAll allowEmpty zero calls records = some (outcomes, records')) {k : ℕ}
    {outcome : Outcome Block} (hk : outcomes[k]? = some outcome) :
    ∃ c before records₁ records₂, calls[k]? = some c ∧
      runAll allowEmpty zero (calls.take k) records = some (before, records₁) ∧
      c.run allowEmpty zero records₁ = some (outcome, records₂) := by
  induction calls generalizing records outcomes k with
  | nil =>
      cases h
      cases hk
  | cons c calls ih =>
      obtain ⟨⟨outcome₁, records₁⟩, hrun, hrest⟩ := Option.bind_eq_some_iff.mp h
      obtain ⟨⟨outcomes₁, records₂⟩, hall, heq⟩ := Option.bind_eq_some_iff.mp hrest
      cases heq
      cases k with
      | zero =>
          obtain rfl := Option.some.inj hk
          exact ⟨c, [], records, records₁, rfl, rfl, hrun⟩
      | succ k =>
          obtain ⟨c', before, records₃, records₄, hc', hbefore, hrun'⟩ := ih hall hk
          refine ⟨c', outcome₁ :: before, records₃, records₄, hc', ?_, hrun'⟩
          simp [runAll, hrun, hbefore]

end Sequential

/-! ### What a worker has returned -/

theorem Worker.Follows.increasing {rank : ℕ} {ss : Session Block} {w : Worker Block}
    (h : w.Follows job rank ss) :
    w.issued.Pairwise fun posted posted' => posted.call < posted'.call := by
  obtain ⟨-, hissued⟩ | ⟨posted, popped, ⟨⟨c, calls, -, hplan⟩, hissued⟩, -⟩ := h.ahead_or
  · rw [hissued]
    exact h.numbered.increasing
  · rw [hissued]
    exact (h.numbered.post (Client.planned_of_plan hplan).2.2).2

theorem eq_of_call_eq {issued : List (Posted Block)}
    (h : issued.Pairwise fun posted posted' => posted.call < posted'.call)
    {posted posted' : Posted Block} (hmem : posted ∈ issued) (hmem' : posted' ∈ issued)
    (heq : posted.call = posted'.call) : posted = posted' := by
  obtain ⟨i, hi, rfl⟩ := List.mem_iff_getElem.mp hmem
  obtain ⟨j, hj, rfl⟩ := List.mem_iff_getElem.mp hmem'
  rcases Nat.lt_trichotomy i j with hlt | rfl | hgt
  · have := List.pairwise_iff_getElem.mp h i j hi hj hlt
    omega
  · rfl
  · have := List.pairwise_iff_getElem.mp h j i hj hi hgt
    omega

/-- What a worker has returned is what the sequential program returns. -/
theorem Job.Reachable.returned_eq (hreach : job.Reachable s) {rank : ℕ}
    (hrange : ∀ c ∈ job.program rank, c.InRange) {k : ℕ} {outcome : Outcome Block}
    (hk : (workerOf s rank).returned[k]? = some outcome) :
    ∃ c before records records', (job.program rank)[k]? = some c ∧
      Call.runAll (job.allowEmptyRecordsOn rank) job.zero ((job.program rank).take k) ∅ =
        some (before, records) ∧
      c.run (job.allowEmptyRecordsOn rank) job.zero records = some (outcome, records') := by
  obtain ⟨ss, hfollow⟩ := hreach.following rank
  obtain ⟨outcomes, records, hall, hreturned, -⟩ := Session.runAll_returned
    Session.agrees_new (Session.sound_new job)
    (fun c hc => hrange c (List.mem_of_mem_take hc)) hfollow.run
  have houtcomes : (workerOf s rank).returned = outcomes := by
    rw [hfollow.returned, hreturned]
    rfl
  obtain ⟨c, before, records₁, records₂, hc, hbefore, hrun⟩ :=
    Call.runAll_getElem? hall (houtcomes ▸ hk)
  have hlt : k < (workerOf s rank).returned.length := (List.getElem?_eq_some_iff.mp hk).1
  refine ⟨c, before, records₁, records₂, ?_, ?_, hrun⟩
  · rwa [List.getElem?_take_of_lt hlt] at hc
  · rwa [List.take_take, Nat.min_eq_left (Nat.le_of_lt hlt)] at hbefore

/-! ### Reading one's own writes -/

structure ReadsOwnWrites (job : Job Block) (s : OcoreState Block) : Prop where
  /-- The data message received for a header is the one its worker sent for that
  very header: the two carry the number of the same call, and no other header of
  the worker carries it. -/
  announced : ∀ (t w : ℕ) (posted : Posted Block) (packet : Packet Block)
    (rest : List (Packet Block)), (ocoreOf s t).phase = .receiving w posted →
    s.msgs w t .send = packet :: rest →
    posted.data = some packet.data ∧ packet.call = posted.call ∧ posted ∈ (workerOf s w).issued ∧
      ∀ posted' ∈ (workerOf s w).issued, posted'.call = packet.call → posted' = posted
  /-- A completed read delivers the block most recently written. -/
  latest : ∀ (w k : ℕ) (index : SizeT) (data : Block) (outcome : Outcome Block),
    w < job.startingRank → (job.program w)[k]? = some (.read index) →
    (∀ c ∈ (job.program w).take k, c ≠ .popRecord) →
    lastWrite index ((job.program w).take k) = some data →
    (workerOf s w).returned[k]? = some outcome → outcome = .delivered data
  /-- In any other job in which the worker has the same program, its calls return
  the same. -/
  independent : ∀ (job' : Job Block) (s' : OcoreState Block) (w : ℕ), w < job.startingRank →
    job'.Reachable s' → job'.program w = job.program w → job'.zero = job.zero →
    job'.allowEmptyRecordsOn w = job.allowEmptyRecordsOn w →
    ∀ (k : ℕ) (outcome outcome' : Outcome Block), (workerOf s w).returned[k]? = some outcome →
      (workerOf s' w).returned[k]? = some outcome' → outcome' = outcome

/-- **Read your own writes.** -/
theorem reads_own_writes (hreach : job.Reachable s)
    (hrange : ∀ w < job.startingRank, ∀ c ∈ job.program w, c.InRange) : ReadsOwnWrites job s where
  announced t w posted packet rest hphase hmsgs := by
    have hs := hreach.conversing
    obtain ⟨ss, hfollow⟩ := hreach.following w
    have hbusy : (linkOf s w t).busy = some posted := by
      change (ocoreOf s t).busyFor w = some posted
      rw [busyFor_of_receiving hphase, if_pos rfl]
    have hpay := ((hs.link w t).payload_eq hbusy
      (fun hnone => hs.receiving t w posted hphase (payload_eq_none_iff.mp hnone)) hmsgs).1
    obtain ⟨data, hdata, rfl⟩ := Option.map_eq_some_iff.mp hpay
    have hissued : posted ∈ (workerOf s w).issued := by
      have hmem : posted ∈ (linkOf s w t).issued := by
        rw [Link.issued_eq_of_busy (hs.link w t) hbusy]
        simp
      exact (List.mem_filter.mp hmem).1
    exact ⟨hdata, rfl, hissued, fun posted' hmem hcall =>
      eq_of_call_eq hfollow.increasing hmem hissued hcall⟩
  latest w k index data outcome hw hread hpops hlast hk := by
    obtain ⟨c, before, records, records', hc, hbefore, hrun⟩ :=
      hreach.returned_eq (hrange w hw) hk
    obtain rfl : Call.read index = c := Option.some.inj (hread.symm.trans hc)
    have hrecord : records[index]? = some data := by
      rw [Call.runAll_records hpops hbefore, hlast]
      rfl
    simp only [Call.run, hrecord, Option.some.injEq, Prod.mk.injEq] at hrun
    exact hrun.1.symm
  independent job' s' w hw hreach' hprogram hzero hempty k outcome outcome' hk hk' := by
    obtain ⟨c, before, records, records₁, hc, hbefore, hrun⟩ := hreach.returned_eq (hrange w hw) hk
    obtain ⟨c', before', records', records₁', hc', hbefore', hrun'⟩ :=
      hreach'.returned_eq (hprogram ▸ hrange w hw) hk'
    rw [hprogram] at hc' hbefore'
    rw [hzero, hempty] at hbefore' hrun'
    obtain rfl : c = c' := Option.some.inj (hc.symm.trans hc')
    obtain ⟨-, rfl⟩ := Prod.mk.inj (Option.some.inj (hbefore.symm.trans hbefore'))
    exact (congrArg Prod.fst (Option.some.inj (hrun.symm.trans hrun'))).symm

/-- A job with one Ocore task behind the workers. -/
def smallJob (lastWorker : ℕ) (program : ℕ → List (Call ℕ)) : Job ℕ where
  startingRank := lastWorker + 1
  numOcoreTasks := 1
  startingRank_pos := Nat.succ_pos lastWorker
  numOcoreTasks_pos := Nat.one_pos
  allowEmptyRecords := true
  dumpStats := false
  mpiInitializedByOcore := false
  zero := 0
  program := program

/-- Two workers write index 0 and both read it. -/
def twoReaders : Job ℕ := smallJob 1 fun w => [.write 0 (10 + w), .read 0]

theorem twoReaders_reads_own_writes :
    ∃ s, twoReaders.Reachable s ∧
      (workerOf s 0).returned[1]? = some (.delivered 10) ∧ ReadsOwnWrites twoReaders s := by
  -- the header of worker 1 is taken first, and its data message last
  have hrun : (twoReaders.system.performAll
      [.send 0 false, .send 1 true, .recv 2 1, .send 0 true, .send 1 false, .recv 2 1,
        .recv 2 0, .recv 2 0, .send 0 true, .recv 2 0, .send 2 false, .recv 0 2]
      twoReaders.initState).any
        (fun s => decide ((workerOf s 0).returned[1]? = some (.delivered 10))) = true := by
    decide +kernel
  obtain ⟨s, hs, hreturned⟩ := (Option.any_eq_true _ _).mp hrun
  have hreach : twoReaders.Reachable s := System.reachable_of_performAll .init hs
  refine ⟨s, hreach, of_decide_eq_true hreturned, reads_own_writes hreach fun w _ c hc => ?_⟩
  rcases List.mem_cons.mp hc with rfl | hc
  · exact Or.inl (by decide)
  · rw [List.mem_singleton.mp hc]
    exact Or.inl (by decide)

end Grvy.Ocore
