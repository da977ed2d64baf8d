import Grvy.Lib.TreeMapCensus
import Grvy.Ocore.Client

/-!
A worker by itself.

A session makes the calls of a worker as if every read were answered at once,
from the requests the worker has sent before to the same task. It needs no
other rank, so what it sends and returns is a function of the program alone;
the protocol is shown to follow it. Where the indices survive the header, a
session returns what the sequential program over the worker's own map returns.
-/

namespace Grvy.Ocore

open Std (TreeMap)
open Grvy.Lib

variable {Block : Type} {job : Job Block} {rank : ℕ}

/-! ### Logs of requests -/

/-- The requests for one task. -/
def issuedTo (task : ℕ) (issued : List (Posted Block)) : List (Posted Block) :=
  issued.filter fun posted => decide (posted.header.destination = task)

/-- The block that the log binds the header's offset to. -/
def Posted.dataAt (offset : BitVec 32) (posted : Posted Block) : Option Block :=
  if posted.header.offset = offset then posted.data else none

/-- The block last written under an offset. -/
def lastPosted (offset : BitVec 32) (issued : List (Posted Block)) : Option Block :=
  issued.reverse.findSome? (Posted.dataAt offset)

theorem issuedTo_append (task : ℕ) (issued : List (Posted Block)) (posted : Posted Block) :
    issuedTo task (issued ++ [posted]) =
      if posted.header.destination = task then issuedTo task issued ++ [posted]
      else issuedTo task issued := by
  rw [issuedTo, List.filter_append]
  split
  · rename_i hdest
    simp [issuedTo, hdest]
  · rename_i hdest
    simp [issuedTo, hdest]

@[simp] theorem lastPosted_append (offset : BitVec 32) (issued : List (Posted Block))
    (posted : Posted Block) :
    lastPosted offset (issued ++ [posted]) =
      (posted.dataAt offset).or (lastPosted offset issued) := by
  rw [lastPosted, List.reverse_append, List.reverse_singleton, List.singleton_append,
    List.findSome?_cons, lastPosted]
  cases posted.dataAt offset <;> rfl

theorem lastPosted_append_isSome {offset : BitVec 32} {issued : List (Posted Block)}
    (posted : Posted Block) (h : (lastPosted offset issued).isSome) :
    (lastPosted offset (issued ++ [posted])).isSome := by
  simp [h]

/-! ### Plans -/

/-- What a client knows about the owners is in range. -/
structure Client.Ranged (layout : Layout) (client : Client) : Prop where
  owners : ∀ (i : SizeT) (t : ℕ), client.rankMap[i]? = some t →
    layout.startingRank ≤ t ∧ t < layout.nprocs
  distribRank_lt : client.distribRank < layout.numOcoreTasks

theorem Client.ranged_new (layout : Layout) : Client.new.Ranged layout where
  owners i t h := by simp [Client.new] at h
  distribRank_lt := layout.numOcoreTasks_pos

theorem Client.ranged_forget {layout : Layout} {client : Client} (h : client.Ranged layout)
    (popped : Option SizeT) : (client.forget popped).Ranged layout := by
  cases popped with
  | none => exact h
  | some offset =>
      refine ⟨fun i t hi => h.owners i t ?_, h.distribRank_lt⟩
      simp only [Client.forget, TreeMap.getElem?_erase] at hi
      split at hi
      · cases hi
      · exact hi

theorem Client.ranged_assignOwnership {layout : Layout} {client : Client}
    (h : client.Ranged layout) (index : SizeT) :
    (client.assignOwnership layout index).2.Ranged layout := by
  have hlt := h.distribRank_lt
  constructor
  · intro i t hi
    simp only [Client.assignOwnership, TreeMap.getElem?_insert] at hi
    split at hi
    · obtain rfl := Option.some.inj hi
      rw [Layout.nprocs]
      omega
    · exact h.owners i t hi
  · simp only [Client.assignOwnership]
    split <;> omega

/-- The requests that a call leads to. -/
inductive Client.Planned (client : Client) :
    Call Block → Client → Posted Block → Option SizeT → Prop
  | write {index : SizeT} {data : Block} {client' : Client} {posted : Posted Block} :
      posted.data = some data →
      (∀ j, client'.rankMap[j]? =
        if j = index then some posted.header.destination else client.rankMap[j]?) →
      posted.header.offset = headerOffset index →
      (∀ owner, client.rankMap[index]? = some owner → posted.header.destination = owner) →
      Planned client (.write index data) client' posted none
  | read {index : SizeT} {posted : Posted Block} :
      posted.data = none → client.rankMap[index]? = some posted.header.destination →
      posted.header.offset = headerOffset index →
      Planned client (.read index) client posted none
  | pop {index : SizeT} {posted : Posted Block} :
      posted.data = none →
      client.rankMap.toList.head? = some (index, posted.header.destination) →
      posted.header.offset = headerOffset index →
      Planned client .popRecord client posted (some index)

/-- A write assigns its record or goes to the owner, a read goes to the owner, and a pop
to the owner of the first record. -/
theorem Client.plan_cases {client client' : Client} {call : ℕ} {c : Call Block}
    {posted : Posted Block} {popped : Option SizeT}
    (h : client.plan job rank call c = .request client' posted popped) :
    (∃ index data, c = .write index data ∧ client.rankMap[index]? = none ∧
      client' = (client.assignOwnership job.toLayout index).2 ∧
      posted = writeToPool (client.assignOwnership job.toLayout index).1 true index data call ∧
      popped = none) ∨
    (∃ index data owner, c = .write index data ∧ client.rankMap[index]? = some owner ∧
      client' = client ∧ posted = writeToPool owner false index data call ∧ popped = none) ∨
    (∃ index owner, c = .read index ∧ client.rankMap[index]? = some owner ∧
      client' = client ∧ posted = readFromPool owner index call ∧ popped = none) ∨
    (∃ index owner, c = .popRecord ∧ client.rankMap.toList.head? = some (index, owner) ∧
      client' = client ∧ posted = readFromPool owner index call ∧ popped = some index) := by
  cases c with
  | write index data =>
      cases howner : client.rankMap[index]? with
      | none =>
          simp only [Client.plan, howner, Plan.request.injEq] at h
          obtain ⟨rfl, rfl, rfl⟩ := h
          exact Or.inl ⟨index, data, rfl, howner, rfl, rfl, rfl⟩
      | some owner =>
          simp only [Client.plan, howner, Plan.request.injEq] at h
          obtain ⟨rfl, rfl, rfl⟩ := h
          exact Or.inr (Or.inl ⟨index, data, owner, rfl, howner, rfl, rfl, rfl⟩)
  | read index =>
      cases howner : client.rankMap[index]? with
      | none =>
          simp only [Client.plan, howner] at h
          split at h <;> cases h
      | some owner =>
          simp only [Client.plan, howner, Plan.request.injEq] at h
          obtain ⟨rfl, rfl, rfl⟩ := h
          exact Or.inr (Or.inr (Or.inl ⟨index, owner, rfl, howner, rfl, rfl, rfl⟩))
  | popRecord =>
      cases hhead : client.rankMap.toList.head? with
      | none => simp [Client.plan, hhead] at h
      | some e =>
          simp only [Client.plan, hhead, Plan.request.injEq] at h
          obtain ⟨rfl, rfl, rfl⟩ := h
          exact Or.inr (Or.inr (Or.inr ⟨e.1, e.2, rfl, rfl, rfl, rfl, rfl⟩))

theorem Client.planned_of_plan {client client' : Client} {call : ℕ} {c : Call Block}
    {posted : Posted Block} {popped : Option SizeT}
    (h : client.plan job rank call c = .request client' posted popped) :
    client.Planned c client' posted popped ∧ posted.header.msgType ≠ .exit ∧
      posted.call = call := by
  obtain ⟨index, data, rfl, howner, rfl, rfl, rfl⟩ |
    ⟨index, data, owner, rfl, howner, rfl, rfl, rfl⟩ |
    ⟨index, owner, rfl, howner, rfl, rfl, rfl⟩ |
    ⟨index, owner, rfl, hhead, rfl, rfl, rfl⟩ := Client.plan_cases h
  · refine ⟨.write rfl (fun j => ?_) rfl fun owner' howner' => ?_,
      by simp [writeToPool, requestHeader], rfl⟩
    · rcases eq_or_ne j index with rfl | hj
      · rw [if_pos rfl]
        exact TreeMap.getElem?_insert_self
      · rw [if_neg hj]
        exact getElem?_insert_of_ne hj
    · rw [howner] at howner'
      cases howner'
  · refine ⟨.write rfl (fun j => ?_) rfl fun owner' howner' => ?_,
      by simp [writeToPool, requestHeader], rfl⟩
    · split
      · rename_i hj
        rw [hj, howner]
        rfl
      · rfl
    · exact Option.some.inj (howner.symm.trans howner')
  · exact ⟨.read rfl howner rfl, by simp [readFromPool, requestHeader], rfl⟩
  · exact ⟨.pop rfl hhead rfl, by simp [readFromPool, requestHeader], rfl⟩

/-- Only a read of a record without an owner is answered by the worker itself. -/
theorem Client.emptyRead_of_plan {rank call : ℕ} {client : Client} {c : Call Block}
    (h : client.plan job rank call c = .emptyRead) :
    ∃ index, c = .read index ∧ client.rankMap[index]? = none ∧
      job.allowEmptyRecordsOn rank = true := by
  cases c with
  | write index data =>
      cases howner : client.rankMap[index]? <;> simp [Client.plan, howner] at h
  | read index =>
      cases howner : client.rankMap[index]? with
      | some owner => simp [Client.plan, howner] at h
      | none =>
          cases hempty : job.allowEmptyRecordsOn rank with
          | true => exact ⟨index, rfl, howner, rfl⟩
          | false => simp [Client.plan, howner, hempty] at h
  | popRecord =>
      cases hhead : client.rankMap.toList.head? <;> simp [Client.plan, hhead] at h

/-- Only a write changes what the client knows before it is answered. -/
theorem Client.Planned.client_eq {client client' : Client} {c : Call Block}
    {posted : Posted Block} {popped : Option SizeT}
    (h : client.Planned c client' posted popped) (hdata : posted.data = none) :
    client' = client := by
  cases h with
  | write hsome _ _ _ => simp [hdata] at hsome
  | read _ _ _ => rfl
  | pop _ _ _ => rfl

theorem Client.Ranged.plan {client client' : Client} {call : ℕ} {c : Call Block}
    {posted : Posted Block} {popped : Option SizeT} (hclient : client.Ranged job.toLayout)
    (h : client.plan job rank call c = .request client' posted popped) :
    client'.Ranged job.toLayout := by
  obtain ⟨index, data, -, -, rfl, -, -⟩ | ⟨index, data, owner, -, -, rfl, -, -⟩ |
    ⟨index, owner, -, -, rfl, -, -⟩ | ⟨index, owner, -, -, rfl, -, -⟩ := Client.plan_cases h
  · exact Client.ranged_assignOwnership hclient index
  · exact hclient
  · exact hclient
  · exact hclient

theorem Client.Planned.exists_owner {client client' : Client} {c : Call Block}
    {posted : Posted Block} {popped : Option SizeT}
    (h : client.Planned c client' posted popped) :
    ∃ i : SizeT, client'.rankMap[i]? = some posted.header.destination := by
  cases h with
  | @write index _ _ _ _ howner _ _ => exact ⟨index, by rw [howner, if_pos rfl]⟩
  | @read index _ _ howner _ => exact ⟨index, howner⟩
  | @pop index _ _ hhead _ => exact ⟨index, (minKey?_eq_of_head?_toList hhead).2⟩

/-- Requests go to Ocore tasks. -/
theorem Client.Ranged.destination {client client' : Client} {call : ℕ} {c : Call Block}
    {posted : Posted Block} {popped : Option SizeT} (hclient : client.Ranged job.toLayout)
    (h : client.plan job rank call c = .request client' posted popped) :
    job.startingRank ≤ posted.header.destination ∧ posted.header.destination < job.nprocs := by
  obtain ⟨i, hi⟩ := (Client.planned_of_plan h).1.exists_owner
  exact (hclient.plan h).owners i _ hi

/-- The index of the call survives the header. -/
def Call.InRange : Call Block → Prop
  | .write index _ => Carried index
  | .read index => Carried index
  | .popRecord => True

/-- The calls that write a list of blocks. -/
def writeCalls (writes : List (SizeT × Block)) : List (Call Block) :=
  writes.map fun w => .write w.1 w.2

theorem popRecord_notMem_writeCalls (writes : List (SizeT × Block)) :
    Call.popRecord ∉ writeCalls writes := by
  simp [writeCalls]

/-! ### Sessions -/

/-- A worker with what it has sent and returned so far. -/
structure Session (Block : Type) where
  client : Client
  issued : List (Posted Block)
  returned : List (Outcome Block)

namespace Session

def new : Session Block := { client := .new, issued := [], returned := [] }

/-- What the call behind a request returns. A read is answered from the earlier
requests to the same task. -/
def answer (posted : Posted Block) (popped : Option SizeT) (ss : Session Block) :
    Option (Outcome Block) :=
  match posted.data with
  | some _ => some .written
  | none =>
      (lastPosted posted.header.offset (issuedTo posted.header.destination ss.issued)).map
        (.received popped)

def run (job : Job Block) (rank : ℕ) (c : Call Block) (ss : Session Block) :
    Option (Session Block) :=
  match ss.client.plan job rank ss.returned.length c with
  | .request client posted popped =>
      (ss.answer posted popped).map fun outcome =>
        { client := client.forget popped
          issued := ss.issued ++ [posted]
          returned := ss.returned ++ [outcome] }
  | .emptyRead => some { ss with returned := ss.returned ++ [.delivered job.zero] }
  | .abort => none

def runAll (job : Job Block) (rank : ℕ) :
    List (Call Block) → Session Block → Option (Session Block)
  | [], ss => some ss
  | c :: calls, ss => (ss.run job rank c).bind (runAll job rank calls)

theorem runAll_append (calls calls' : List (Call Block)) (ss : Session Block) :
    runAll job rank (calls ++ calls') ss =
      (runAll job rank calls ss).bind (runAll job rank calls') := by
  induction calls generalizing ss with
  | nil => rfl
  | cons c calls ih =>
      change (ss.run job rank c).bind (runAll job rank (calls ++ calls')) = _
      rw [funext ih]
      exact (Option.bind_assoc ..).symm

/-- A session knows which task has each of its records, and has written them
there. -/
structure Sound (job : Job Block) (ss : Session Block) : Prop where
  ranged : ss.client.Ranged job.toLayout
  known : ∀ (i : SizeT) (t : ℕ), ss.client.rankMap[i]? = some t →
    (lastPosted (headerOffset i) (issuedTo t ss.issued)).isSome

theorem sound_new (job : Job Block) : (new : Session Block).Sound job where
  ranged := Client.ranged_new job.toLayout
  known i t h := by simp [new, Client.new] at h

variable {ss ss' : Session Block} {c : Call Block} {client : Client} {posted : Posted Block}
  {popped : Option SizeT}

/-- What has been written stays written. -/
theorem known_append {offset : BitVec 32} {task : ℕ} {issued : List (Posted Block)}
    (posted : Posted Block) (h : (lastPosted offset (issuedTo task issued)).isSome) :
    (lastPosted offset (issuedTo task (issued ++ [posted]))).isSome := by
  rw [issuedTo_append]
  split
  · exact lastPosted_append_isSome posted h
  · exact h

/-- A planned read is for a record that has been written. -/
theorem Sound.answer_isSome (sound : ss.Sound job)
    (h : ss.client.Planned c client posted popped) : (ss.answer posted popped).isSome := by
  cases h with
  | write hdata _ _ _ => simp [answer, hdata]
  | read hdata howner hoffset =>
      simp only [answer, hdata, Option.isSome_map, hoffset]
      exact sound.known _ _ howner
  | pop hdata hhead hoffset =>
      simp only [answer, hdata, Option.isSome_map, hoffset]
      exact sound.known _ _ (minKey?_eq_of_head?_toList hhead).2

theorem Sound.planned (sound : ss.Sound job) (h : ss.client.Planned c client posted popped)
    {i : SizeT} {t : ℕ} (hi : (client.forget popped).rankMap[i]? = some t) :
    (lastPosted (headerOffset i) (issuedTo t (ss.issued ++ [posted]))).isSome := by
  cases h with
  | @write index data client posted hdata howner hoffset _ =>
      rw [Client.forget, howner] at hi
      split at hi
      · rename_i hindex
        obtain rfl := Option.some.inj hi
        rw [issuedTo_append, if_pos rfl, lastPosted_append, Posted.dataAt, hindex, if_pos hoffset,
          hdata]
        rfl
      · exact known_append posted (sound.known i t hi)
  | read _ _ _ => exact known_append posted (sound.known i t hi)
  | pop _ _ _ =>
      simp only [Client.forget, TreeMap.getElem?_erase] at hi
      split at hi
      · cases hi
      · exact known_append posted (sound.known i t hi)

/-- A call sends one request and returns what it is answered, or it is a read that the
worker answers itself. -/
theorem run_cases (h : ss.run job rank c = some ss') :
    (∃ client posted popped outcome,
      ss.client.plan job rank ss.returned.length c = .request client posted popped ∧
      ss.answer posted popped = some outcome ∧
      ss' = { client := client.forget popped
              issued := ss.issued ++ [posted]
              returned := ss.returned ++ [outcome] }) ∨
    (ss.client.plan job rank ss.returned.length c = .emptyRead ∧
      ss' = { ss with returned := ss.returned ++ [.delivered job.zero] }) := by
  unfold Session.run at h
  cases hplan : ss.client.plan job rank ss.returned.length c with
  | request client posted popped =>
      simp only [hplan, Option.map_eq_some_iff] at h
      obtain ⟨outcome, hanswer, rfl⟩ := h
      exact Or.inl ⟨client, posted, popped, outcome, rfl, hanswer, rfl⟩
  | emptyRead =>
      simp only [hplan, Option.some.injEq] at h
      exact Or.inr ⟨rfl, h.symm⟩
  | abort => simp [hplan] at h

theorem Sound.run (sound : ss.Sound job) (h : ss.run job rank c = some ss') : ss'.Sound job := by
  obtain ⟨client, posted, popped, outcome, hplan, -, rfl⟩ | ⟨-, rfl⟩ := run_cases h
  · refine ⟨Client.ranged_forget (sound.ranged.plan hplan) popped, fun i t hi => ?_⟩
    exact sound.planned (Client.planned_of_plan hplan).1 hi
  · exact ⟨sound.ranged, sound.known⟩

/-- Every request carries the number of a completed call, no two the same. -/
structure Numbered (ss : Session Block) : Prop where
  below : ∀ posted ∈ ss.issued, posted.call < ss.returned.length
  increasing : ss.issued.Pairwise fun posted posted' => posted.call < posted'.call

theorem numbered_new : (new : Session Block).Numbered where
  below posted h := by cases h
  increasing := List.Pairwise.nil

/-- A new request has a number of its own. -/
theorem Numbered.post (numbered : ss.Numbered) (hcall : posted.call = ss.returned.length) :
    (∀ posted' ∈ ss.issued ++ [posted], posted'.call < ss.returned.length + 1) ∧
      (ss.issued ++ [posted]).Pairwise fun posted posted' => posted.call < posted'.call := by
  refine ⟨fun posted' hmem => ?_, List.pairwise_append.mpr
    ⟨numbered.increasing, List.pairwise_singleton _ _, fun posted' hold posted'' hnew => ?_⟩⟩
  · rcases List.mem_append.mp hmem with hold | hnew
    · exact Nat.lt_succ_of_lt (numbered.below posted' hold)
    · rw [List.mem_singleton.mp hnew, hcall]
      exact Nat.lt_succ_self _
  · rw [List.mem_singleton.mp hnew, hcall]
    exact numbered.below posted' hold

theorem Numbered.run (numbered : ss.Numbered) (h : ss.run job rank c = some ss') :
    ss'.Numbered := by
  obtain ⟨client, posted, popped, outcome, hplan, -, rfl⟩ | ⟨-, rfl⟩ := run_cases h
  · obtain ⟨hbelow, hincreasing⟩ := numbered.post (Client.planned_of_plan hplan).2.2
    exact ⟨by simpa using hbelow, hincreasing⟩
  · refine ⟨fun posted hmem => ?_, numbered.increasing⟩
    have hlt := numbered.below posted hmem
    simp only [List.length_append, List.length_singleton]
    omega

theorem runAll_invariant {I : Session Block → Prop}
    (hstep : ∀ c ss ss', I ss → ss.run job rank c = some ss' → I ss') {calls : List (Call Block)}
    (hss : I ss) (h : runAll job rank calls ss = some ss') : I ss' := by
  induction calls generalizing ss with
  | nil =>
      obtain rfl := Option.some.inj h
      exact hss
  | cons c calls ih =>
      obtain ⟨ss₁, hrun, hrest⟩ := Option.bind_eq_some_iff.mp h
      exact ih (hstep c ss ss₁ hss hrun) hrest

/-! ### Sessions and sequential programs -/

/-- A worker knows an owner for the records it has. -/
def SameKeys (ss : Session Block) (records : TreeMap SizeT Block) : Prop :=
  ∀ i, i ∈ ss.client.rankMap ↔ i ∈ records

/-- The record of each index is what the worker last wrote to its owner. -/
structure Agrees (ss : Session Block) (records : TreeMap SizeT Block) : Prop where
  carried : ∀ (i : SizeT) (t : ℕ), ss.client.rankMap[i]? = some t → Carried i
  records : ∀ i : SizeT, records[i]? = ss.client.rankMap[i]?.bind fun t =>
    lastPosted (headerOffset i) (issuedTo t ss.issued)

theorem Sound.run_request (sound : ss.Sound job)
    (hplan : ss.client.plan job rank ss.returned.length c = .request client posted popped) :
    ∃ outcome, ss.answer posted popped = some outcome ∧
      ss.run job rank c = some
        { client := client.forget popped
          issued := ss.issued ++ [posted]
          returned := ss.returned ++ [outcome] } := by
  obtain ⟨outcome, hanswer⟩ :=
    Option.isSome_iff_exists.mp (sound.answer_isSome (Client.planned_of_plan hplan).1)
  exact ⟨outcome, hanswer, by rw [Session.run, hplan]; simp [hanswer]⟩

section SameKeys

variable {records : TreeMap SizeT Block} {index : SizeT}

/-- A write adds its index. -/
theorem SameKeys.run_write (hkeys : ss.SameKeys records) (sound : ss.Sound job) (rank : ℕ)
    (index : SizeT) (data : Block) :
    ∃ ss', ss.run job rank (.write index data) = some ss' ∧
      ss'.SameKeys (records.insert index data) := by
  obtain ⟨client, posted, popped, hplan⟩ : ∃ client posted popped,
      ss.client.plan job rank ss.returned.length (.write index data) =
        .request client posted popped := by
    cases howner : ss.client.rankMap[index]? <;> simp [Client.plan, howner]
  obtain ⟨outcome, -, hrun⟩ := sound.run_request hplan
  refine ⟨_, hrun, fun i => ?_⟩
  cases (Client.planned_of_plan hplan).1 with
  | write _ howner _ _ =>
      rw [Client.forget, TreeMap.mem_iff_isSome_getElem?, howner, TreeMap.mem_insert, ← hkeys i,
        TreeMap.mem_iff_isSome_getElem?, Std.compare_eq_iff_eq]
      split
      · rename_i hi
        simp [hi]
      · rename_i hi
        simp [Ne.symm hi]

/-- A record that is there has an owner, who is asked. -/
theorem SameKeys.run_read (hkeys : ss.SameKeys records) (sound : ss.Sound job) (rank : ℕ)
    (hmem : index ∈ records) :
    ∃ ss', ss.run job rank (.read index) = some ss' ∧ ss'.SameKeys records := by
  rw [← hkeys index, TreeMap.mem_iff_isSome_getElem?] at hmem
  obtain ⟨owner, howner⟩ := Option.isSome_iff_exists.mp hmem
  have hplan : ss.client.plan job rank ss.returned.length (.read index : Call Block) =
      .request ss.client (readFromPool owner index ss.returned.length) none := by
    simp [Client.plan, howner]
  obtain ⟨outcome, -, hrun⟩ := sound.run_request hplan
  exact ⟨_, hrun, hkeys⟩

/-- A record that is not there has none. -/
theorem SameKeys.owner_eq_none (hkeys : ss.SameKeys records) (hnone : records[index]? = none) :
    ss.client.rankMap[index]? = none := by
  apply TreeMap.getElem?_eq_none
  rw [hkeys index, TreeMap.mem_iff_isSome_getElem?, hnone]
  simp

/-- A pop removes the first index. -/
theorem SameKeys.run_popRecord (hkeys : ss.SameKeys records) (sound : ss.Sound job) (rank : ℕ)
    {owner : ℕ} (hhead : ss.client.rankMap.toList.head? = some (index, owner)) :
    ∃ ss', ss.run job rank .popRecord = some ss' ∧ ss'.SameKeys (records.erase index) := by
  have hplan : ss.client.plan job rank ss.returned.length (.popRecord : Call Block) =
      .request ss.client (readFromPool owner index ss.returned.length) (some index) := by
    simp [Client.plan, hhead]
  obtain ⟨outcome, -, hrun⟩ := sound.run_request hplan
  refine ⟨_, hrun, fun i => ?_⟩
  rw [Client.forget, TreeMap.mem_erase, TreeMap.mem_erase, hkeys i]

/-- A session stops where the sequential program calls `Abort`, and has the same
records otherwise. -/
theorem SameKeys.run (hkeys : ss.SameKeys records) (sound : ss.Sound job) (rank : ℕ)
    (c : Call Block) :
    (ss.run job rank c = none ∧ c.run (job.allowEmptyRecordsOn rank) job.zero records = none) ∨
      ∃ ss' outcome records', ss.run job rank c = some ss' ∧
        c.run (job.allowEmptyRecordsOn rank) job.zero records = some (outcome, records') ∧
        ss'.SameKeys records' := by
  cases c with
  | write index data =>
      obtain ⟨ss', hrun, hkeys'⟩ := hkeys.run_write sound rank index data
      exact Or.inr ⟨ss', .written, _, hrun, rfl, hkeys'⟩
  | read index =>
      cases hdata : records[index]? with
      | some data =>
          have hmem : index ∈ records := by
            rw [TreeMap.mem_iff_isSome_getElem?, hdata]
            rfl
          obtain ⟨ss', hrun, hkeys'⟩ := hkeys.run_read sound rank hmem
          exact Or.inr ⟨ss', .delivered data, records, hrun, by simp [Call.run, hdata], hkeys'⟩
      | none =>
          have howner := hkeys.owner_eq_none hdata
          cases hempty : job.allowEmptyRecordsOn rank with
          | true =>
              refine Or.inr ⟨{ ss with returned := ss.returned ++ [.delivered job.zero] },
                .delivered job.zero, records, ?_, ?_, hkeys⟩
              · simp [Session.run, Client.plan, howner, hempty]
              · simp [Call.run, hdata]
          | false =>
              refine Or.inl ⟨?_, ?_⟩
              · simp [Session.run, Client.plan, howner, hempty]
              · simp [Call.run, hdata]
  | popRecord =>
      rcases head?_toList_congr hkeys with ⟨hhead, hhead'⟩ | ⟨index, owner, data, hhead, hhead'⟩
      · refine Or.inl ⟨?_, ?_⟩
        · simp [Session.run, Client.plan, hhead]
        · simp [Call.run, hhead']
      · obtain ⟨ss', hrun, hkeys'⟩ := hkeys.run_popRecord sound rank hhead
        exact Or.inr ⟨ss', .popped index data, _, hrun, by simp [Call.run, hhead'], hkeys'⟩

end SameKeys

theorem runAll_eq_none_iff (sound : ss.Sound job) {records : TreeMap SizeT Block}
    (hkeys : ss.SameKeys records) (calls : List (Call Block)) :
    runAll job rank calls ss = none ↔
      Call.runAll (job.allowEmptyRecordsOn rank) job.zero calls records = none := by
  induction calls generalizing ss records with
  | nil => simp [runAll, Call.runAll]
  | cons c calls ih =>
      obtain ⟨hrun, hcall⟩ | ⟨ss', outcome, records', hrun, hcall, hkeys'⟩ :=
        hkeys.run sound rank c
      · simp [runAll, Call.runAll, hrun, hcall]
      · have hrest := ih (sound.run hrun) hkeys'
        simp only [runAll, hrun, Option.bind_some, Call.runAll, hcall, Option.bind_eq_bind, hrest]
        cases Call.runAll (job.allowEmptyRecordsOn rank) job.zero calls records' <;> simp

/-- A worker aborts in its program if it does by itself. -/
theorem runAll_eq_none_iff_programAborts (job : Job Block) (rank : ℕ) :
    runAll job rank (job.program rank) new = none ↔ job.ProgramAborts rank :=
  runAll_eq_none_iff (sound_new job) (fun i => by simp [new, Client.new]) _

/-! ### Indices that survive the header -/

theorem lastPosted_issuedTo_append {offset : BitVec 32} {posted : Posted Block}
    (h : posted.dataAt offset = none) (task : ℕ) (issued : List (Posted Block)) :
    lastPosted offset (issuedTo task (issued ++ [posted])) =
      lastPosted offset (issuedTo task issued) := by
  rw [issuedTo_append]
  split
  · simp [h]
  · rfl

theorem dataAt_of_data_eq_none (h : posted.data = none) (offset : BitVec 32) :
    posted.dataAt offset = none := by
  rw [Posted.dataAt, h, ite_self]

variable {records records' : TreeMap SizeT Block}

theorem Agrees.sameKeys (agrees : ss.Agrees records) (sound : ss.Sound job) :
    ss.SameKeys records := by
  intro i
  rw [TreeMap.mem_iff_isSome_getElem?, TreeMap.mem_iff_isSome_getElem?, agrees.records i]
  cases howner : ss.client.rankMap[i]? with
  | none => simp
  | some t => simpa using sound.known i t howner

theorem Agrees.getElem?_eq (agrees : ss.Agrees records) {i : SizeT} {t : ℕ}
    (h : ss.client.rankMap[i]? = some t) :
    records[i]? = lastPosted (headerOffset i) (issuedTo t ss.issued) := by
  rw [agrees.records i, h]
  rfl

/-- A request that writes nothing leaves the records as they are. -/
theorem Agrees.read (agrees : ss.Agrees records) (h : posted.data = none)
    (returned : List (Outcome Block)) :
    Agrees { client := ss.client, issued := ss.issued ++ [posted], returned := returned }
      records where
  carried := agrees.carried
  records i := by
    rw [agrees.records i]
    simp only [lastPosted_issuedTo_append (dataAt_of_data_eq_none h _)]

theorem Agrees.erase (agrees : ss.Agrees records) (index : SizeT) :
    Agrees { ss with client := ss.client.forget (some index) } (records.erase index) where
  carried i t hi := by
    simp only [Client.forget, TreeMap.getElem?_erase] at hi
    split at hi
    · cases hi
    · exact agrees.carried i t hi
  records i := by
    simp only [Client.forget, TreeMap.getElem?_erase]
    split
    · rfl
    · exact agrees.records i

/-- A write of one record leaves what was last written for the others. -/
theorem Agrees.write (agrees : ss.Agrees records) {index : SizeT} {data : Block}
    (hindex : Carried index) (hdata : posted.data = some data)
    (howner : ∀ j : SizeT, client.rankMap[j]? =
      if j = index then some posted.header.destination else ss.client.rankMap[j]?)
    (hoffset : posted.header.offset = headerOffset index) (returned : List (Outcome Block)) :
    Agrees { client := client, issued := ss.issued ++ [posted], returned := returned }
      (records.insert index data) where
  carried i t hi := by
    rw [howner i] at hi
    split at hi
    · rename_i heq
      rw [heq]
      exact hindex
    · exact agrees.carried i t hi
  records i := by
    rw [howner i]
    rcases eq_or_ne i index with rfl | hi
    · rw [if_pos rfl, TreeMap.getElem?_insert_self, Option.bind_some, issuedTo_append, if_pos rfl,
        lastPosted_append, Posted.dataAt, if_pos hoffset, hdata]
      rfl
    · rw [if_neg hi, getElem?_insert_of_ne hi]
      cases hold : ss.client.rankMap[i]? with
      | none => rw [agrees.records i, hold]; rfl
      | some t =>
          -- both indices survive, so the header tells them apart
          have hne : posted.header.offset ≠ headerOffset i := fun heq =>
            hi (headerOffset_injective (agrees.carried i t hold) hindex (heq.symm.trans hoffset))
          rw [agrees.getElem?_eq hold, Option.bind_some, lastPosted_issuedTo_append (if_neg hne)]

/-- A request is answered as the sequential program answers the call. -/
theorem Agrees.request (agrees : ss.Agrees records) (sound : ss.Sound job) (hc : c.InRange)
    (hplanned : ss.client.Planned c client posted popped) {outcome outcome' : Outcome Block}
    (hanswer : ss.answer posted popped = some outcome')
    (hcall : c.run (job.allowEmptyRecordsOn rank) job.zero records = some (outcome, records')) :
    outcome' = outcome ∧
      Agrees
        { client := client.forget popped
          issued := ss.issued ++ [posted]
          returned := ss.returned ++ [outcome'] }
        records' := by
  cases hplanned with
  | write hdata howner hoffset _ =>
      obtain ⟨rfl, rfl⟩ : Outcome.written = outcome ∧ records.insert _ _ = records' := by
        simpa [Call.run] using hcall
      obtain rfl : Outcome.written = outcome' := by simpa [answer, hdata] using hanswer
      exact ⟨rfl, agrees.write hc hdata howner hoffset _⟩
  | read hdata howner hoffset =>
      have hlast : lastPosted posted.header.offset
          (issuedTo posted.header.destination ss.issued) = records[_]? :=
        (hoffset ▸ agrees.getElem?_eq howner).symm
      simp only [answer, hdata, hlast, Option.map_eq_some_iff] at hanswer
      obtain ⟨data, hrecord, rfl⟩ := hanswer
      obtain ⟨rfl, rfl⟩ : Outcome.delivered data = outcome ∧ records = records' := by
        simpa [Call.run, hrecord] using hcall
      exact ⟨rfl, agrees.read hdata _⟩
  | @pop index posted hdata hhead hoffset =>
      have howner := (minKey?_eq_of_head?_toList hhead).2
      rcases head?_toList_congr (agrees.sameKeys sound) with ⟨hnone, -⟩ | ⟨k, t, data, hk, hk'⟩
      · rw [hnone] at hhead
        cases hhead
      · obtain rfl : k = index := congrArg Prod.fst (Option.some.inj (hk.symm.trans hhead))
        have hrecord := (minKey?_eq_of_head?_toList hk').2
        have hlast := hoffset ▸ (agrees.getElem?_eq howner).symm.trans hrecord
        simp only [answer, hdata, hlast, Option.map_some, Option.some.injEq] at hanswer
        obtain rfl := hanswer
        obtain ⟨rfl, rfl⟩ : Outcome.popped k data = outcome ∧ records.erase k = records' := by
          simpa [Call.run, hk'] using hcall
        exact ⟨rfl, (agrees.read hdata _).erase k⟩

/-- A session returns what the sequential program returns. -/
theorem Agrees.run (agrees : ss.Agrees records) (sound : ss.Sound job) (hc : c.InRange)
    {outcome : Outcome Block}
    (hrun : ss.run job rank c = some ss')
    (hcall : c.run (job.allowEmptyRecordsOn rank) job.zero records = some (outcome, records')) :
    ss'.returned = ss.returned ++ [outcome] ∧ ss'.Agrees records' := by
  obtain ⟨client, posted, popped, outcome', hplan, hanswer, rfl⟩ | ⟨hplan, rfl⟩ := run_cases hrun
  · obtain ⟨rfl, hagrees⟩ :=
      agrees.request sound hc (Client.planned_of_plan hplan).1 hanswer hcall
    exact ⟨rfl, hagrees⟩
  · obtain ⟨index, rfl, howner, hempty⟩ := Client.emptyRead_of_plan hplan
    have hnone : records[index]? = none := by
      rw [agrees.records, howner]
      rfl
    obtain ⟨rfl, rfl⟩ : Outcome.delivered job.zero = outcome ∧ records = records' := by
      simpa [Call.run, hnone, hempty] using hcall
    exact ⟨rfl, agrees.carried, agrees.records⟩

/-- What a session has returned is what the sequential program returns. -/
theorem runAll_returned {calls : List (Call Block)} (agrees : ss.Agrees records)
    (sound : ss.Sound job) (hcalls : ∀ c ∈ calls, c.InRange)
    (hrun : runAll job rank calls ss = some ss') :
    ∃ outcomes records', Call.runAll (job.allowEmptyRecordsOn rank) job.zero calls records =
        some (outcomes, records') ∧
      ss'.returned = ss.returned ++ outcomes ∧ ss'.Agrees records' := by
  induction calls generalizing ss records with
  | nil =>
      obtain rfl := Option.some.inj hrun
      exact ⟨[], records, rfl, (List.append_nil _).symm, agrees⟩
  | cons c calls ih =>
      obtain ⟨ss₁, hone, hrest⟩ := Option.bind_eq_some_iff.mp hrun
      rcases (agrees.sameKeys sound).run sound rank c with
        ⟨hnone, -⟩ | ⟨ss₂, outcome, records₁, hone', hcall, -⟩
      · rw [hone] at hnone
        cases hnone
      · obtain ⟨hreturned, agrees₁⟩ :=
          agrees.run sound (hcalls c List.mem_cons_self) hone hcall
        obtain ⟨outcomes, records', hall, hreturned', agrees'⟩ := ih agrees₁ (sound.run hone)
          (fun c' hc' => hcalls c' (List.mem_cons_of_mem _ hc')) hrest
        refine ⟨outcome :: outcomes, records', ?_, ?_, agrees'⟩
        · simp [Call.runAll, hcall, hall]
        · rw [hreturned', hreturned, List.append_assoc]
          rfl

theorem agrees_new : (new : Session Block).Agrees ∅ where
  carried i t h := by simp [new, Client.new] at h
  records i := by simp [new, Client.new]

end Session

end Grvy.Ocore
