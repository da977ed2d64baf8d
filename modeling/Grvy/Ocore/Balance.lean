import Grvy.Lib.RoundRobin
import Grvy.Ocore.Session

/-!
Who owns the records of a worker.

`AssignOwnership` deals the new records to the Ocore tasks in turn, and a write
of a known index leaves `rank_map` alone. Without `PopRecord` nothing is ever
taken out of `rank_map`, so owners are for good and no task owns more than one
record above another.
-/

namespace Grvy.Ocore

open Std (TreeMap)
open Grvy.Lib

variable {Block : Type} {job : Job Block} {rank : ℕ}

/-! ### Counting the records of a task -/

/-- The owners of the records, one for each record. -/
def Client.owners (client : Client) : List ℕ :=
  census (fun _ owner => some owner) client.rankMap

/-- The number of records that the task owns. -/
def Client.recordsOwnedBy (task : ℕ) (client : Client) : ℕ :=
  client.owners.count task

@[simp] theorem Client.recordsOwnedBy_new (task : ℕ) : Client.new.recordsOwnedBy task = 0 := by
  have hnone : Client.new.owners = [] := rfl
  rw [Client.recordsOwnedBy, hnone, List.count_nil]

/-- A new record counts for the task whose turn it is and for no other. -/
theorem Client.recordsOwnedBy_assignOwnership {layout : Layout} {client : Client} {index : SizeT}
    (hnew : client.rankMap[index]? = none) (task : ℕ) :
    (client.assignOwnership layout index).2.recordsOwnedBy task =
      client.recordsOwnedBy task +
        if task = client.distribRank + layout.startingRank then 1 else 0 := by
  have hperm := census_insert_of_getElem?_eq_none (fun _ owner => some owner)
    (client.distribRank + layout.startingRank) hnew
  change (census (fun _ owner => some owner) (client.rankMap.insert index
    (client.distribRank + layout.startingRank))).count task = _
  rw [hperm.count_eq task, List.count_append, Nat.add_comm]
  congr 1
  change [client.distribRank + layout.startingRank].count task = _
  rw [List.count_singleton]
  simp only [beq_iff_eq]
  exact if_congr eq_comm rfl rfl

/-- The records are dealt to the Ocore tasks in turn, `distrib_rank` is the next. -/
def Client.DealsInTurn (layout : Layout) (client : Client) : Prop :=
  InTurn layout.numOcoreTasks client.distribRank
    fun i => client.recordsOwnedBy (layout.startingRank + i)

theorem Client.dealsInTurn_new (layout : Layout) : Client.new.DealsInTurn layout := by
  unfold Client.DealsInTurn
  simp only [Client.recordsOwnedBy_new]
  exact InTurn.zero layout.numOcoreTasks

theorem Client.DealsInTurn.assignOwnership {layout : Layout} {client : Client} {index : SizeT}
    (h : client.DealsInTurn layout) (hnew : client.rankMap[index]? = none) :
    (client.assignOwnership layout index).2.DealsInTurn layout := by
  apply InTurn.deal h
  · rw [Client.recordsOwnedBy_assignOwnership hnew, if_pos (Nat.add_comm _ _)]
  -- the others do not count one more
  · intro i hi
    rw [Client.recordsOwnedBy_assignOwnership hnew, if_neg (by omega), Nat.add_zero]

/-! ### Sessions without `PopRecord` -/

/-- What a call other than `PopRecord` does to what the client knows. -/
theorem Session.client_of_run {ss ss' : Session Block} {c : Call Block} (hc : c ≠ .popRecord)
    (h : ss.run job rank c = some ss') :
    ss'.client = ss.client ∨ ∃ index, ss.client.rankMap[index]? = none ∧
      ss'.client = (ss.client.assignOwnership job.toLayout index).2 := by
  obtain ⟨client, posted, popped, outcome, hplan, -, rfl⟩ | ⟨-, rfl⟩ := Session.run_cases h
  · obtain ⟨index, data, -, hnew, rfl, -, rfl⟩ | ⟨index, data, owner, -, -, rfl, -, rfl⟩ |
      ⟨index, owner, -, -, rfl, -, rfl⟩ | ⟨index, owner, hpop, -, -, -, -⟩ :=
      Client.plan_cases hplan
    · exact Or.inr ⟨index, hnew, rfl⟩
    · exact Or.inl rfl
    · exact Or.inl rfl
    · exact absurd hpop hc
  · exact Or.inl rfl

/-- Every owner of one client is an owner of the other. -/
def Client.Keeps (client client' : Client) : Prop :=
  ∀ (i : SizeT) (t : ℕ), client.rankMap[i]? = some t → client'.rankMap[i]? = some t

theorem Client.keeps_assignOwnership {layout : Layout} {client : Client} {index : SizeT}
    (hnew : client.rankMap[index]? = none) :
    client.Keeps (client.assignOwnership layout index).2 := by
  intro i t ht
  have hne : i ≠ index := by
    rintro rfl
    rw [hnew] at ht
    cases ht
  exact (getElem?_insert_of_ne hne).trans ht

/-- What holds of the owners as long as nothing is popped. -/
structure Session.Shared (job : Job Block) (ss : Session Block) : Prop where
  sound : ss.Sound job
  deals : ss.client.DealsInTurn job.toLayout

theorem Session.shared_new (job : Job Block) : (new : Session Block).Shared job where
  sound := Session.sound_new job
  deals := Client.dealsInTurn_new job.toLayout

theorem Session.Shared.run {ss ss' : Session Block} (shared : ss.Shared job) {c : Call Block}
    (hc : c ≠ .popRecord) (h : ss.run job rank c = some ss') :
    ss'.Shared job ∧ ss.client.Keeps ss'.client := by
  have sound' := shared.sound.run h
  obtain hsame | ⟨index, hnew, hassign⟩ := Session.client_of_run hc h
  -- nothing is assigned
  · exact ⟨⟨sound', hsame ▸ shared.deals⟩, fun i t ht => hsame ▸ ht⟩
  · refine ⟨⟨sound', ?_⟩, ?_⟩
    · rw [hassign]
      exact shared.deals.assignOwnership hnew
    · rw [hassign]
      exact Client.keeps_assignOwnership hnew

theorem Session.Shared.runAll {calls : List (Call Block)} {ss ss' : Session Block}
    (shared : ss.Shared job) (hcalls : Call.popRecord ∉ calls)
    (h : Session.runAll job rank calls ss = some ss') :
    ss'.Shared job ∧ ss.client.Keeps ss'.client := by
  induction calls generalizing ss with
  | nil =>
      obtain rfl := Option.some.inj h
      exact ⟨shared, fun i t ht => ht⟩
  | cons c calls ih =>
      obtain ⟨ss₁, hone, hrest⟩ := Option.bind_eq_some_iff.mp h
      rw [List.mem_cons, not_or] at hcalls
      obtain ⟨shared₁, hkeeps₁⟩ := shared.run (Ne.symm hcalls.1) hone
      obtain ⟨shared', hkeeps⟩ := ih shared₁ hcalls.2 hrest
      exact ⟨shared', fun i t ht => hkeeps i t (hkeeps₁ i t ht)⟩

/-- Owners are Ocore tasks. -/
theorem Session.Shared.owner_mem {ss : Session Block} (shared : ss.Shared job) {i : SizeT} {t : ℕ}
    (h : ss.client.rankMap[i]? = some t) :
    job.startingRank ≤ t ∧ t ≤ job.startingRank + job.numOcoreTasks - 1 := by
  obtain ⟨hlow, hhigh⟩ := shared.sound.ranged.owners i t h
  rw [Layout.nprocs] at hhigh
  omega

theorem Session.Shared.balanced {ss : Session Block} (shared : ss.Shared job) {i j : ℕ}
    (hi : i < job.numOcoreTasks) (hj : j < job.numOcoreTasks) :
    ss.client.recordsOwnedBy (job.startingRank + i) ≤
      ss.client.recordsOwnedBy (job.startingRank + j) + 1 :=
  InTurn.le_add_one shared.deals hi hj

/-! ### Sequences of writes -/

/-- A write completes, and its index has an owner afterwards. -/
theorem Session.Sound.run_write {ss : Session Block} (sound : ss.Sound job) (rank : ℕ)
    (w : SizeT × Block) :
    ∃ ss' t, ss.run job rank (.write w.1 w.2) = some ss' ∧ ss'.client.rankMap[w.1]? = some t := by
  obtain ⟨client, posted, popped, hplan⟩ : ∃ client posted popped,
      ss.client.plan job rank ss.returned.length (.write w.1 w.2) =
        .request client posted popped := by
    cases howner : ss.client.rankMap[w.1]? <;> simp [Client.plan, howner]
  obtain ⟨outcome, -, hrun⟩ := sound.run_request hplan
  refine ⟨_, posted.header.destination, hrun, ?_⟩
  cases (Client.planned_of_plan hplan).1 with
  | write _ howner _ _ => exact (howner w.1).trans (if_pos rfl)

theorem Session.Shared.runAll_writes (writes : List (SizeT × Block)) {ss : Session Block}
    (shared : ss.Shared job) (rank : ℕ) :
    ∃ ss', Session.runAll job rank (writeCalls writes) ss = some ss' ∧
      ∀ w ∈ writes, ∃ t, ss'.client.rankMap[w.1]? = some t := by
  induction writes generalizing ss with
  | nil => exact ⟨ss, rfl, fun w hw => absurd hw List.not_mem_nil⟩
  | cons w writes ih =>
      obtain ⟨ss₁, t, hone, ht⟩ := shared.sound.run_write rank w
      have hwrite : (Call.write w.1 w.2) ≠ .popRecord := by
        intro hpop
        cases hpop
      have shared₁ := (shared.run hwrite hone).1
      obtain ⟨ss', hrest, howned⟩ := ih shared₁
      have hkeeps := (shared₁.runAll (popRecord_notMem_writeCalls writes) hrest).2
      refine ⟨ss', ?_, fun w' hw' => ?_⟩
      · change (ss.run job rank (.write w.1 w.2)).bind _ = some ss'
        rw [hone]
        exact hrest
      · rcases List.mem_cons.mp hw' with rfl | hw'
        · exact ⟨t, hkeeps _ t ht⟩
        · exact howned w' hw'

/-- Whatever a worker writes and in whatever order: its records belong to Ocore tasks,
an index that has been written has an owner and keeps it, and after every prefix of
the writes no Ocore task owns two records more than another. -/
theorem writes_share_records (job : Job Block) (rank : ℕ)
    (earlier later : List (SizeT × Block)) :
    ∃ ss ss' : Session Block,
      Session.runAll job rank (writeCalls earlier) .new = some ss ∧
      Session.runAll job rank (writeCalls (earlier ++ later)) .new = some ss' ∧
      (∀ (i : SizeT) (t : ℕ), ss.client.rankMap[i]? = some t →
        job.startingRank ≤ t ∧ t ≤ job.startingRank + job.numOcoreTasks - 1) ∧
      (∀ w ∈ earlier, ∃ t, ss.client.rankMap[w.1]? = some t) ∧
      (∀ (i : SizeT) (t : ℕ), ss.client.rankMap[i]? = some t →
        ss'.client.rankMap[i]? = some t) ∧
      ∀ i < job.numOcoreTasks, ∀ j < job.numOcoreTasks,
        ss.client.recordsOwnedBy (job.startingRank + i) ≤
          ss.client.recordsOwnedBy (job.startingRank + j) + 1 := by
  have shared := Session.shared_new job
  obtain ⟨ss, hearlier, howned⟩ := shared.runAll_writes earlier rank
  have hss := (shared.runAll (popRecord_notMem_writeCalls earlier) hearlier).1
  obtain ⟨ss', hlater, -⟩ := hss.runAll_writes later rank
  have hkeeps := (hss.runAll (popRecord_notMem_writeCalls later) hlater).2
  refine ⟨ss, ss', hearlier, ?_, fun i t => hss.owner_mem, howned, hkeeps,
    fun i hi j hj => hss.balanced hi hj⟩
  rw [writeCalls, List.map_append]
  exact (Session.runAll_append _ _ _).trans (by rw [← writeCalls, hearlier]; exact hlater)

end Grvy.Ocore
