import Grvy.Ocore.Capacity
import Grvy.Ocore.ReadYourWrites

/-!
The ownership maps of the workers and the stores of the Ocore tasks.

A worker remembers which task has each of its records, and a task remembers
the records it has been sent. Once all requests have been processed the two
agree as long as nothing but writes with indices that survive the header and
reads has been completed: `PopRecord` makes the worker forget a record and
tells the task nothing.
-/

namespace Grvy.Ocore

open Std (TreeMap)
open Grvy.Lib
open Grvy.Lib.MessagePassing

variable {Block : Type} {job : Job Block} {s : OcoreState Block}

/-! ### What a worker knows -/

/-- The client knows an owner exactly for the indices it has sent to it. -/
def Client.Owns (client : Client) (issued : List (Posted Block)) : Prop :=
  ∀ (i : SizeT) (t : ℕ), client.rankMap[i]? = some t ↔
    ∃ posted ∈ issued, posted.data ≠ none ∧ posted.header.destination = t ∧
      posted.header.offset.signExtend 64 = i

/-- A call after which the worker and its tasks agree: a write with an index that
survives the header, or a read. -/
def Call.Tracked : Call Block → Prop
  | .write index _ => Carried index
  | .read _ => True
  | .popRecord => False

section Client

variable {client client' : Client} {issued : List (Posted Block)} {posted : Posted Block}
  {popped : Option SizeT} {c : Call Block}

theorem Client.owns_new : Client.new.Owns ([] : List (Posted Block)) := by
  intro i t
  simp [Client.new]

theorem Client.Owns.read (h : client.Owns issued) (hdata : posted.data = none) :
    client.Owns (issued ++ [posted]) := by
  intro i t
  rw [h i t]
  constructor
  · rintro ⟨posted', hmem, hrest⟩
    exact ⟨posted', List.mem_append_left _ hmem, hrest⟩
  · rintro ⟨posted', hmem, hsome, hrest⟩
    rcases List.mem_append.mp hmem with hold | hnew
    · exact ⟨posted', hold, hsome, hrest⟩
    · rw [List.mem_singleton.mp hnew] at hsome
      exact absurd hdata hsome

theorem Client.Owns.write (h : client.Owns issued) {index : SizeT} (hindex : Carried index)
    (hdata : posted.data ≠ none)
    (howner : ∀ j : SizeT, client'.rankMap[j]? =
      if j = index then some posted.header.destination else client.rankMap[j]?)
    (hoffset : posted.header.offset = headerOffset index)
    (hsame : ∀ owner, client.rankMap[index]? = some owner → posted.header.destination = owner) :
    client'.Owns (issued ++ [posted]) := by
  have hsign : posted.header.offset.signExtend 64 = index := by
    rw [hoffset]
    exact (signExtend_headerOffset_iff index).mpr hindex
  intro i t
  rw [howner i]
  constructor
  · intro ht
    split at ht
    · rename_i hi
      exact ⟨posted, by simp, hdata, Option.some.inj ht, by rw [hsign, hi]⟩
    · obtain ⟨posted', hmem, hrest⟩ := (h i t).mp ht
      exact ⟨posted', List.mem_append_left _ hmem, hrest⟩
  · rintro ⟨posted', hmem, hsome, hdest, hsign'⟩
    rcases List.mem_append.mp hmem with hold | hnew
    · have hknown := (h i t).mpr ⟨posted', hold, hsome, hdest, hsign'⟩
      split
      · rename_i hi
        rw [hsame t (hi ▸ hknown)]
      · exact hknown
    · obtain rfl := List.mem_singleton.mp hnew
      rw [if_pos (hsign'.symm.trans hsign), hdest]

theorem Client.Owns.planned (h : client.Owns issued) (hc : c.Tracked)
    (hplan : client.Planned c client' posted popped) :
    (client'.forget popped).Owns (issued ++ [posted]) := by
  cases hplan with
  | write hdata howner hoffset hsame =>
      exact h.write hc (by rw [hdata]; exact Option.some_ne_none _) howner hoffset hsame
  | read hdata _ _ => exact h.read hdata
  | pop _ _ _ => exact False.elim hc

theorem Session.owns_runAll {rank : ℕ} {calls : List (Call Block)} {ss ss' : Session Block}
    (h : ss.client.Owns ss.issued) (hcalls : ∀ c ∈ calls, c.Tracked)
    (hrun : Session.runAll job rank calls ss = some ss') : ss'.client.Owns ss'.issued := by
  induction calls generalizing ss with
  | nil =>
      obtain rfl := Option.some.inj hrun
      exact h
  | cons c calls ih =>
      obtain ⟨ss₁, hone, hrest⟩ := Option.bind_eq_some_iff.mp hrun
      refine ih ?_ (fun c' hc' => hcalls c' (List.mem_cons_of_mem _ hc')) hrest
      have hc := hcalls c List.mem_cons_self
      obtain ⟨client, posted, popped, outcome, hplan, -, rfl⟩ | ⟨-, rfl⟩ :=
        Session.run_cases hone
      · exact h.planned hc (Client.planned_of_plan hplan).1
      · exact h

end Client

/-! ### What the tasks have stored -/

/-- Every request that a worker has sent has been processed. -/
def AllProcessed (job : Job Block) (s : OcoreState Block) : Prop :=
  ∀ w < job.startingRank, ∀ t, job.startingRank ≤ t → t < job.nprocs →
    issuedTo t (workerOf s w).issued = (ocoreOf s t).servedFor w

theorem mem_storedKeys_requests {v : OcoreTask Block}
    (h : ∀ e ∈ v.served, e.stored = e.posted.data) (key : SparseKey) :
    key ∈ storedKeys v.requests ↔ ∃ posted ∈ v.servedFor key.1, posted.data ≠ none ∧
      posted.header.offset.signExtend 64 = key.2 := by
  have hkey : ∀ e ∈ v.served, e.request.storedKey = some key ↔
      e.source = key.1 ∧ e.posted.data ≠ none ∧ e.posted.header.offset.signExtend 64 = key.2 := by
    intro e he
    rw [Served.request, h e he]
    cases e.posted.data with
    | none => simp [Request.storedKey]
    | some data => simp [Request.storedKey, headerKey, Prod.ext_iff]
  rw [storedKeys, List.mem_dedup, List.mem_filterMap, OcoreTask.requests]
  constructor
  · rintro ⟨r, hr, hrkey⟩
    obtain ⟨e, he, rfl⟩ := List.mem_map.mp hr
    obtain ⟨hsource, hrest⟩ := (hkey e he).mp hrkey
    exact ⟨e.posted, List.mem_map.mpr
      ⟨e, List.mem_filter.mpr ⟨he, decide_eq_true hsource⟩, rfl⟩, hrest⟩
  · rintro ⟨posted, hmem, hrest⟩
    obtain ⟨e, he, rfl⟩ := List.mem_map.mp hmem
    obtain ⟨he, hsource⟩ := List.mem_filter.mp he
    exact ⟨e.request, List.mem_map.mpr ⟨e, he, rfl⟩,
      (hkey e he).mpr ⟨of_decide_eq_true hsource, hrest⟩⟩

/-- What a worker has sent is what its client owns, up to a message it is about
to send. -/
theorem Worker.Follows.owns {rank : ℕ} {ss : Session Block} {w : Worker Block}
    (h : w.Follows job rank ss)
    (hcalls : ∀ c ∈ (job.program rank).take w.returned.length, c.Tracked)
    (hsending : ∀ task packet, w.phase ≠ .sending task packet) : w.client.Owns w.issued := by
  have howns := Session.owns_runAll Client.owns_new hcalls h.run
  obtain ⟨hclient, hissued⟩ | ⟨posted, popped, ⟨⟨c, calls, -, hplan⟩, hissued⟩, hsent⟩ :=
    h.ahead_or
  · rw [hclient, hissued]
    exact howns
  · rcases hsent with ⟨task, packet, hphase⟩ | hpay
    · exact absurd hphase (hsending task packet)
    · have hdata := payload_eq_none_iff.mp hpay
      rw [(Client.planned_of_plan hplan).1.client_eq hdata, hissued]
      exact howns.read hdata

/-- The ownership maps agree with the stores, and a record is in one store. -/
structure OwnershipAgrees (job : Job Block) (s : OcoreState Block) : Prop where
  keys : ∀ t, job.startingRank ≤ t → t < job.nprocs →
    ∀ (lim : Limits) (q : DumpQueue) (data : Block) (answers : List (Option Block))
      (st : Storage Block),
      Storage.run lim q (ocoreOf s t).requests (initStorage lim data) = .ok (answers, st) →
      ∀ key : SparseKey, key ∈ st.smap ↔
        key.1 < job.startingRank ∧ (workerOf s key.1).client.rankMap[key.2]? = some t
  single : ∀ t t', job.startingRank ≤ t → t < job.nprocs → job.startingRank ≤ t' →
    t' < job.nprocs →
    ∀ (lim : Limits) (q : DumpQueue) (data : Block) (answers answers' : List (Option Block))
      (st st' : Storage Block),
      Storage.run lim q (ocoreOf s t).requests (initStorage lim data) = .ok (answers, st) →
      Storage.run lim q (ocoreOf s t').requests (initStorage lim data) = .ok (answers', st') →
      ∀ key : SparseKey, key ∈ st.smap → key ∈ st'.smap → t = t'

/-- A worker about to send a data message has a request that is not processed. -/
theorem Job.Reachable.not_sending (hreach : job.Reachable s) (hprocessed : AllProcessed job s)
    {w : ℕ} (hw : w < job.startingRank) (task : ℕ) (packet : Packet Block) :
    (workerOf s w).phase ≠ .sending task packet := by
  intro hphase
  obtain ⟨ss, hfollow⟩ := hreach.following w
  obtain ⟨posted, ⟨⟨c, calls, -, hplan⟩, hissued⟩, hpay, rfl⟩ := hfollow.of_sending hphase
  obtain ⟨hlow, hhigh⟩ := hfollow.sound.ranged.destination hplan
  have hlink := hreach.conversing.link w posted.header.destination
  have hall : (linkOf s w posted.header.destination).issued =
      (linkOf s w posted.header.destination).served :=
    hprocessed w hw posted.header.destination hlow hhigh
  have hout : (linkOf s w posted.header.destination).outstanding = [] := by
    have hissued := hlink.issued_eq
    rw [hall] at hissued
    exact List.self_eq_append_right.mp hissued
  have hsend : (linkOf s w posted.header.destination).sending = some packet := by
    change (workerOf s w).sendingTo posted.header.destination = some packet
    rw [Worker.sendingTo, hphase]
    exact if_pos rfl
  have hpayloads := hlink.payloads_eq
  rw [hout, hsend] at hpayloads
  simp at hpayloads

/-- **Ownership.** Where all requests have been processed, and no worker has
completed anything but reads and writes with indices that survive the header,
the workers and the tasks agree. -/
theorem ownership_agrees (hreach : job.Reachable s)
    (htracked : ∀ w < job.startingRank,
      ∀ c ∈ (job.program w).take (workerOf s w).returned.length, c.Tracked)
    (hprocessed : AllProcessed job s) : OwnershipAgrees job s := by
  have hkeys : ∀ t, job.startingRank ≤ t → t < job.nprocs → ∀ key : SparseKey,
      key ∈ storedKeys (ocoreOf s t).requests ↔
        key.1 < job.startingRank ∧ (workerOf s key.1).client.rankMap[key.2]? = some t := by
    intro t hlow hhigh key
    rw [mem_storedKeys_requests (hreach.conversing.stored t)]
    rcases Nat.lt_or_ge key.1 job.startingRank with hw | hge
    · obtain ⟨ss, hfollow⟩ := hreach.following key.1
      have howns := hfollow.owns (htracked key.1 hw) (hreach.not_sending hprocessed hw)
      rw [howns key.2 t, ← hprocessed key.1 hw t hlow hhigh]
      constructor
      · rintro ⟨posted, hmem, hdata, hsign⟩
        obtain ⟨hmem, hdest⟩ := List.mem_filter.mp hmem
        exact ⟨hw, posted, hmem, hdata, of_decide_eq_true hdest, hsign⟩
      · rintro ⟨-, posted, hmem, hdata, hdest, hsign⟩
        exact ⟨posted, List.mem_filter.mpr ⟨hmem, decide_eq_true hdest⟩, hdata, hsign⟩
    · -- no task has served anyone but workers
      have hserved : (ocoreOf s t).servedFor key.1 = [] := by
        have hissued := (hreach.conversing.link key.1 t).issued_eq
        have hnone : (linkOf s key.1 t).issued = [] := by
          change issuedTo t (workerOf s key.1).issued = []
          rw [hreach.workerOf_of_ge hge]
          rfl
        rw [hnone] at hissued
        exact (List.append_eq_nil_iff.mp hissued.symm).1
      rw [hserved]
      constructor
      · rintro ⟨posted, hmem, -⟩
        cases hmem
      · rintro ⟨hw, -⟩
        omega
  refine ⟨fun t hlow hhigh lim q data answers st hrun key => ?_, ?_⟩
  · rw [Storage.mem_smap_iff hrun, hkeys t hlow hhigh key]
  · intro t t' hlow hhigh hlow' hhigh' lim q data answers answers' st st' hrun hrun' key hmem hmem'
    rw [Storage.mem_smap_iff hrun, hkeys t hlow hhigh key] at hmem
    rw [Storage.mem_smap_iff hrun', hkeys t' hlow' hhigh' key] at hmem'
    exact Option.some.inj (hmem.2.symm.trans hmem'.2)

theorem twoReaders_ownership_agrees :
    ∃ s, twoReaders.Reachable s ∧ (workerOf s 1).client.rankMap[(0 : SizeT)]? = some 2 ∧
      OwnershipAgrees twoReaders s := by
  have hrun : (twoReaders.system.performAll
      [.send 0 false, .send 1 true, .recv 2 1, .send 0 true, .send 1 false, .recv 2 1,
        .recv 2 0, .recv 2 0]
      twoReaders.initState).any (fun s =>
        decide ((workerOf s 1).client.rankMap[(0 : SizeT)]? = some 2) &&
          decide (∀ w < 2, issuedTo 2 (workerOf s w).issued = (ocoreOf s 2).servedFor w)) =
      true := by
    decide +kernel
  obtain ⟨s, hs, htest⟩ := (Option.any_eq_true _ _).mp hrun
  simp only [Bool.and_eq_true, decide_eq_true_eq] at htest
  obtain ⟨howner, hserved⟩ := htest
  have hreach : twoReaders.Reachable s := System.reachable_of_performAll .init hs
  refine ⟨s, hreach, howner, ownership_agrees hreach (fun w _ c hc => ?_) ?_⟩
  · rcases List.mem_cons.mp (List.mem_of_mem_take hc) with rfl | hc
    · exact Or.inl (by decide)
    · rw [List.mem_singleton.mp hc]
      trivial
  · intro w hw t hlow hhigh
    obtain rfl : t = 2 := by
      change 2 ≤ t at hlow
      change t < 3 at hhigh
      omega
    exact hserved w hw

/-- One worker that writes a record and pops it. -/
def popper : Job ℕ := smallJob 0 fun _ => [.write 0 5, .popRecord]

/-- The record popped is still in the store. -/
theorem popped_record_kept :
    ∃ s, popper.Reachable s ∧ AllProcessed popper s ∧ ¬OwnershipAgrees popper s := by
  have hrun : (popper.system.performAll
      [.send 0 true, .recv 1 0, .send 0 true, .recv 1 0, .send 0 true, .recv 1 0, .send 1 true,
        .recv 0 1]
      popper.initState).any (fun s =>
        decide ((workerOf s 0).client.rankMap[(0 : SizeT)]? = none) &&
          decide (issuedTo 1 (workerOf s 0).issued = (ocoreOf s 1).servedFor 0) &&
          (match Storage.run twoSlots dumpQueue (ocoreOf s 1).requests
              (initStorage twoSlots 0) with
            | .ok result => decide (((0, 0) : SparseKey) ∈ result.2.smap)
            | .error _ => false)) = true := by
    decide +kernel
  obtain ⟨s, hs, htest⟩ := (Option.any_eq_true _ _).mp hrun
  simp only [Bool.and_eq_true, decide_eq_true_eq] at htest
  obtain ⟨⟨hforgotten, hserved⟩, hstored⟩ := htest
  have hreach : popper.Reachable s := System.reachable_of_performAll .init hs
  refine ⟨s, hreach, ?_, fun hagrees => ?_⟩
  · intro w hw t hlow hhigh
    obtain rfl : w = 0 := Nat.lt_one_iff.mp hw
    obtain rfl : t = 1 := by
      change 1 ≤ t at hlow
      change t < 2 at hhigh
      omega
    exact hserved
  · split at hstored
    · rename_i result hresult
      have hkey := (hagrees.keys 1 (by decide) (by decide) _ _ _ _ _ hresult (0, 0)).mp
        (of_decide_eq_true hstored)
      rw [hforgotten] at hkey
      cases hkey.2
    · cases hstored

end Grvy.Ocore
