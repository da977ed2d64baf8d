import Mathlib.Algebra.Group.Prod
import Grvy.Ocore.Capacity

/-!
Which records an overflow evicts.

`DumptoDisk` goes by the read count in each datagram, and nothing says where
that count comes from: it is kept by `PullData`, and the eviction itself
rewrites the datagrams that hold it. Here the count is tied to the requests
that the task has served, so that the choice is one about the history: no
record that was moved has been read more often than one that stayed.
-/

namespace Grvy.Ocore

open Std (TreeMap)
open Grvy.Lib

variable {Block : Type}

/-! ### Counting requests -/

def Request.pulls (key : SparseKey) : Request Block → Bool
  | .pullData key' => decide (key' = key)
  | .storeData _ _ => false

def Request.stores (key : SparseKey) : Request Block → Bool
  | .pullData _ => false
  | .storeData key' _ => decide (key' = key)

/-- How many `PullData` requests were for `key`. -/
def pullCount (key : SparseKey) (reqs : List (Request Block)) : ℕ :=
  reqs.countP (Request.pulls key)

/-- How many `StoreData` requests were for `key`. -/
def storeCount (key : SparseKey) (reqs : List (Request Block)) : ℕ :=
  reqs.countP (Request.stores key)

@[simp] theorem pullCount_cons (key : SparseKey) (r : Request Block) (rs : List (Request Block)) :
    pullCount key (r :: rs) = pullCount key rs + if r.pulls key then 1 else 0 :=
  List.countP_cons

@[simp] theorem storeCount_cons (key : SparseKey) (r : Request Block) (rs : List (Request Block)) :
    storeCount key (r :: rs) = storeCount key rs + if r.stores key then 1 else 0 :=
  List.countP_cons

namespace Storage

variable {lim : Limits} {q : DumpQueue}

/-- The read count and the write count of the record under `key`. -/
def countsOf (s : Storage Block) (key : SparseKey) : Option (ℕ × ℕ) :=
  s.smap[key]?.map fun d => (d.readCount, d.writeCount)

/-- The keys of the records in memory, in map order. -/
def memoryRecords (s : Storage Block) : List SparseKey :=
  census (fun key d => if d.inMem then some key else none) s.smap

/-- The slot of the record under `key`. -/
def slotOf (s : Storage Block) (key : SparseKey) : ℕ := (s.smap.getD key default).index

theorem countsOf_eq {s : Storage Block} {key : SparseKey} {d : Datagram}
    (h : s.smap[key]? = some d) : s.countsOf key = some (d.readCount, d.writeCount) := by
  rw [countsOf, h, Option.map_some]

theorem slotOf_eq {s : Storage Block} {key : SparseKey} {d : Datagram}
    (h : s.smap[key]? = some d) : s.slotOf key = d.index := by
  rw [slotOf, TreeMap.getD_eq_getD_getElem?, h, Option.getD_some]

/-- The queue holds one entry for each record in memory. -/
theorem candidates_keys (s : Storage Block) :
    s.candidates.map NodePriority.key = s.memoryRecords := by
  rw [candidates, memoryRecords, census, List.map_filterMap]
  refine congrArg (fun f => List.filterMap f s.smap.toList) ?_
  funext e
  cases hd : e.2.inMem <;> simp [candidate, hd]

theorem length_memoryRecords (s : Storage Block) :
    s.memoryRecords.length = s.candidates.length := by
  rw [← candidates_keys, List.length_map]

/-! ### What the dump loop does to the records -/

/-- The records behind `nodes` move to the next disk slots in turn, and nothing
else moves. -/
structure Moved (nodes : List NodePriority) (s s' : Storage Block) : Prop where
  moved : ∀ i node, nodes[i]? = some node → ∃ d block, s.smap[node.key]? = some d ∧
    s'.smap[node.key]? =
      some { d with inMem := false, index := s.numActiveDiskRecords + i } ∧
    s.pool[node.ocoreIndex]? = some block ∧
    s'.fpTmp (s.numActiveDiskRecords + i) = some block
  kept : ∀ key, key ∉ nodes.map NodePriority.key → s'.smap[key]? = s.smap[key]?
  file : ∀ slot < s.numActiveDiskRecords, s'.fpTmp slot = s.fpTmp slot

theorem moveToDisk_smap_self {s : Storage Block} {node : NodePriority} {d : Datagram}
    (block : Block) (h : s.smap[node.key]? = some d) :
    (s.moveToDisk node block).smap[node.key]? =
      some { d with inMem := false, index := s.numActiveDiskRecords } := by
  rw [moveToDisk_smap block h]
  exact TreeMap.getElem?_insert_self

/-- The first record moves, then the others do. -/
theorem Moved.cons {node : NodePriority} {nodes : List NodePriority} {s s' : Storage Block}
    {d : Datagram} {block : Block} (hkey : s.smap[node.key]? = some d)
    (hblock : s.pool[node.ocoreIndex]? = some block)
    (hfresh : node.key ∉ nodes.map NodePriority.key)
    (h : Moved nodes (s.moveToDisk node block) s') : Moved (node :: nodes) s s' where
  moved i node' hi := by
    cases i with
    | zero =>
        obtain rfl : node = node' := Option.some.inj hi
        refine ⟨d, block, hkey, ?_, hblock, ?_⟩
        · rw [h.kept _ hfresh]
          exact moveToDisk_smap_self block hkey
        · rw [Nat.add_zero, h.file _ (Nat.lt_succ_self s.numActiveDiskRecords)]
          exact Function.update_self ..
    | succ i =>
        obtain ⟨d', block', hd', hs', hpool, hfile⟩ := h.moved i node' hi
        have hmem : node'.key ∈ nodes.map NodePriority.key :=
          List.mem_map_of_mem (List.mem_of_getElem? hi)
        have hne : node'.key ≠ node.key := fun heq => hfresh (heq ▸ hmem)
        have hindex : s.numActiveDiskRecords + 1 + i = s.numActiveDiskRecords + (i + 1) := by
          omega
        rw [moveToDisk_smap_of_ne block hne] at hd'
        change s'.smap[node'.key]? =
          some { d' with inMem := false, index := s.numActiveDiskRecords + 1 + i } at hs'
        change s'.fpTmp (s.numActiveDiskRecords + 1 + i) = some block' at hfile
        rw [hindex] at hs' hfile
        exact ⟨d', block', hd', hs', hpool, hfile⟩
  kept key hkey' := by
    rw [List.map_cons, List.mem_cons, not_or] at hkey'
    rw [h.kept key hkey'.2, moveToDisk_smap_of_ne block hkey'.1]
  file slot hslot := by
    rw [h.file slot (Nat.lt_succ_of_lt hslot)]
    exact Function.update_of_ne (Nat.ne_of_lt hslot) _ _

theorem dumpRecords_moved {nodes : List NodePriority} {s s' : Storage Block}
    (hnodes : ∀ node ∈ nodes, Resident s node) (hkeys : (nodes.map NodePriority.key).Nodup)
    (h : dumpRecords nodes s = .ok s') : Moved nodes s s' := by
  induction nodes generalizing s with
  | nil =>
      cases h
      refine ⟨fun i node hi => ?_, fun _ _ => rfl, fun _ _ => rfl⟩
      rw [List.getElem?_nil] at hi
      cases hi
  | cons node nodes ih =>
      obtain ⟨s₁, hdump, hrest⟩ := exists_of_bind_eq_ok h
      rw [List.map_cons, List.nodup_cons] at hkeys
      obtain ⟨d, hkey, -, -⟩ := hnodes node List.mem_cons_self
      obtain ⟨block, hblock, rfl⟩ := dumpRecord_ok hdump
      refine Moved.cons hkey hblock hkeys.1 (ih ?_ hkeys.2 hrest)
      intro n hn
      obtain ⟨d', hkey', hd'⟩ := hnodes n (List.mem_cons_of_mem _ hn)
      have hne : n.key ≠ node.key := fun heq => hkeys.1 (heq ▸ List.mem_map_of_mem hn)
      exact ⟨d', (moveToDisk_smap_of_ne _ hne).trans hkey', hd'⟩

/-- Moving a record keeps its counts. -/
theorem Moved.counts {nodes : List NodePriority} {s s' : Storage Block} (h : Moved nodes s s')
    (key : SparseKey) : s'.countsOf key = s.countsOf key := by
  by_cases hkey : key ∈ nodes.map NodePriority.key
  · obtain ⟨node, hmem, rfl⟩ := List.mem_map.mp hkey
    obtain ⟨i, hi⟩ := List.mem_iff_getElem?.mp hmem
    obtain ⟨d, -, hd, hd', -, -⟩ := h.moved i node hi
    rw [countsOf_eq hd, countsOf_eq hd']
  · rw [countsOf, h.kept key hkey, countsOf]

/-! ### What `DumptoDisk` does -/

/-- No victim has been read more often than a candidate that is spared. -/
theorem victims_least {s : Storage Block} {node node' : NodePriority}
    (h : node ∈ s.victims lim q) (hcand : node' ∈ s.candidates)
    (hspared : node' ∉ s.victims lim q) : node.priority ≤ node'.priority := by
  have hsorted := q.drain_sorted s.candidates
  rw [← List.take_append_drop (numToDump lim s.candidates.length) (q.drain s.candidates),
    List.pairwise_append] at hsorted
  have hdrain : node' ∈ q.drain s.candidates := q.mem_drain.mpr hcand
  rw [← List.take_append_drop (numToDump lim s.candidates.length) (q.drain s.candidates),
    List.mem_append] at hdrain
  have hrest := hdrain.resolve_left hspared
  have hlower := hsorted.2.2 node h node' hrest
  exact Nat.le_of_not_lt (of_decide_eq_false hlower)

theorem dumptoDisk_moved {s s' : Storage Block} (h : s.dumptoDisk lim q = .ok s') :
    Moved (s.victims lim q) s s' := by
  have hnodes : ∀ node ∈ s.victims lim q, Resident { s with overflowTriggered := true } node :=
    fun node hnode => resident_of_mem_candidates (mem_candidates_of_victim hnode)
  have hmoved := dumpRecords_moved hnodes (victims_nodup lim q s) h
  exact ⟨hmoved.moved, hmoved.kept, hmoved.file⟩

/-! ### Counts along a run -/

theorem getFreeRecord_counts {s s' : Storage Block} {slot : ℕ}
    (h : s.getFreeRecord lim q = .ok (slot, s')) (key : SparseKey) :
    s'.countsOf key = s.countsOf key := by
  obtain ⟨-, -, -, rfl⟩ | ⟨rest, -, -, rfl⟩ | ⟨s₁, rest, -, -, hdump, -, rfl⟩ :=
    getFreeRecord_cases h
  · rfl
  · rfl
  · exact (dumptoDisk_moved hdump).counts key

/-- The counts of the record under `key`, zero where there is no such record. -/
def readsAndWrites (s : Storage Block) (key : SparseKey) : ℕ × ℕ := (s.countsOf key).getD (0, 0)

theorem readsAndWrites_of_none {s : Storage Block} {key : SparseKey} (h : s.smap[key]? = none) :
    s.readsAndWrites key = (0, 0) := by
  rw [readsAndWrites, countsOf, h, Option.map_none, Option.getD_none]

theorem readsAndWrites_eq {s : Storage Block} {key : SparseKey} {d : Datagram}
    (h : s.smap[key]? = some d) : s.readsAndWrites key = (d.readCount, d.writeCount) := by
  rw [readsAndWrites, countsOf_eq h, Option.getD_some]

/-- The counts after one record has been entered or rewritten. -/
theorem readsAndWrites_insert {s s' : Storage Block} {key : SparseKey} {d : Datagram}
    (h : s'.smap = s.smap.insert key d) (key' : SparseKey) :
    s'.readsAndWrites key' =
      if key = key' then (d.readCount, d.writeCount) else s.readsAndWrites key' := by
  by_cases hk : key = key'
  · subst hk
    rw [if_pos rfl]
    exact readsAndWrites_eq (by rw [h, TreeMap.getElem?_insert_self])
  · rw [if_neg hk, readsAndWrites, countsOf, h, getElem?_insert_of_ne (Ne.symm hk),
      readsAndWrites, countsOf]

/-- A store request counts as one write of its record. -/
theorem enterRecord_counts {s s' : Storage Block} {key : SparseKey} {d : Datagram}
    (h : s.enterRecord lim q key = .ok (d, s')) (key' : SparseKey) :
    s'.readsAndWrites key' =
      s.readsAndWrites key' + (0, if key = key' then 1 else 0) := by
  obtain ⟨hkey, rfl⟩ | ⟨slot, s₁, hkey, hget, rfl, rfl⟩ := enterRecord_cases h
  · rw [readsAndWrites_insert rfl key']
    by_cases hk : key = key'
    · subst hk
      rw [if_pos rfl, if_pos rfl, readsAndWrites_eq hkey]
      rfl
    · rw [if_neg hk, if_neg hk]
      rfl
  · have hsame : s₁.readsAndWrites key' = s.readsAndWrites key' :=
      congrArg (fun c => Option.getD c (0, 0)) (getFreeRecord_counts hget key')
    rw [readsAndWrites_insert rfl key', hsame]
    by_cases hk : key = key'
    · subst hk
      rw [if_pos rfl, if_pos rfl, readsAndWrites_of_none hkey]
      rfl
    · rw [if_neg hk, if_neg hk]
      rfl

/-- What one request adds to the counts of the record under `key`. -/
def tally (key : SparseKey) (r : Request Block) : ℕ × ℕ :=
  (if r.pulls key then 1 else 0, if r.stores key then 1 else 0)

theorem serve_counts {r : Request Block} {s s' : Storage Block} {answer : Option Block}
    (h : s.serve lim q r = .ok (answer, s')) (key : SparseKey) :
    s'.readsAndWrites key = s.readsAndWrites key + tally key r := by
  cases r with
  | storeData key' block =>
      obtain ⟨-, d, s₁, pool, fpTmp, henter, rfl⟩ := serve_storeData_ok h
      have hcounts := enterRecord_counts henter key
      change s₁.readsAndWrites key = _
      simpa [tally, Request.pulls, Request.stores] using hcounts
  | pullData key' =>
      obtain ⟨d, block, hkey, -, -, rfl⟩ := serve_pullData_ok h
      rw [readsAndWrites_insert rfl key]
      by_cases hk : key' = key
      · subst hk
        rw [if_pos rfl, readsAndWrites_eq hkey]
        simp [tally, Request.pulls, Request.stores]
      · rw [if_neg hk]
        simp only [tally, Request.pulls, Request.stores, hk, decide_false]
        rfl

theorem run_counts {rs : List (Request Block)} {s s' : Storage Block}
    {answers : List (Option Block)} (h : run lim q rs s = .ok (answers, s')) (key : SparseKey) :
    s'.readsAndWrites key = s.readsAndWrites key + (pullCount key rs, storeCount key rs) := by
  induction rs generalizing s answers with
  | nil =>
      cases h
      rfl
  | cons r rs ih =>
      obtain ⟨answer, rest, s₁, hserve, hrun, -⟩ := run_cons_ok h
      rw [ih hrun, serve_counts hserve, add_assoc]
      congr 1
      rw [tally, pullCount_cons, storeCount_cons, Prod.mk_add_mk,
        Nat.add_comm, Nat.add_comm (storeCount key rs)]

/-- In a reached state the counts of a record are those of the history. -/
theorem reached_counts {data : Block} {reqs : List (Request Block)}
    {answers : List (Option Block)} {s : Storage Block}
    (hrun : run lim q reqs (initStorage lim data) = .ok (answers, s)) {key : SparseKey}
    {d : Datagram} (hkey : s.smap[key]? = some d) :
    d.readCount = pullCount key reqs ∧ d.writeCount = storeCount key reqs := by
  have hcounts := run_counts hrun key
  have hinit : (initStorage lim data).readsAndWrites key = (0, 0) :=
    readsAndWrites_of_none TreeMap.getElem?_emptyc
  rw [readsAndWrites_eq hkey, hinit, Prod.mk_add_mk, Nat.zero_add, Nat.zero_add] at hcounts
  exact Prod.mk.inj hcounts

/-! ### The records an overflow evicts -/

/-- What one overflow does to the records, `moved` being the keys of those it
evicts. -/
structure Evicts (lim : Limits) (reqs : List (Request Block)) (s : Storage Block)
    (moved : List SparseKey) (s' : Storage Block) : Prop where
  distinct : moved.Nodup
  resident : ∀ key ∈ moved, key ∈ s.memoryRecords
  amount : moved.length = ⌊lim.dumpWatermarkRatio * s.memoryRecords.length⌋₊
  least_read : ∀ key ∈ moved, ∀ key' ∈ s.memoryRecords, key' ∉ moved →
    pullCount key reqs ≤ pullCount key' reqs
  /-- The block of an evicted record is in a disk slot that was not in use, and
  in the slot of no other record. -/
  relocated : ∀ key ∈ moved, ∃ d block, s'.smap[key]? = some d ∧ d.inMem = false ∧
    s.numActiveDiskRecords ≤ d.index ∧ d.index < s'.numActiveDiskRecords ∧
    s.pool[s.slotOf key]? = some block ∧ s'.fpTmp d.index = some block ∧
    ∀ key' d', s'.smap[key']? = some d' → d'.inMem = false → d'.index = d.index → key' = key
  freed : s'.freeRecords = (moved.map s.slotOf).reverse ++ s.freeRecords
  freed_once : ∀ key ∈ moved, s'.freeRecords.count (s.slotOf key) = 1
  kept : ∀ key ∉ moved, s'.smap[key]? = s.smap[key]? ∧ s'.contents key = s.contents key
  counts : ∀ key, s'.countsOf key = s.countsOf key

theorem slotOf_victim {s : Storage Block} {node : NodePriority} (h : node ∈ s.victims lim q) :
    s.slotOf node.key = node.ocoreIndex := by
  obtain ⟨d, hkey, -, hindex, -⟩ := eq_of_mem_candidates (mem_candidates_of_victim h)
  rw [slotOf_eq hkey, hindex]

/-- The slots of the victims, in the order of the queue. -/
theorem map_slotOf_victims (lim : Limits) (q : DumpQueue) (s : Storage Block) :
    ((s.victims lim q).map NodePriority.key).map s.slotOf =
      (s.victims lim q).map NodePriority.ocoreIndex := by
  rw [List.map_map]
  exact List.map_congr_left fun node h => slotOf_victim h

/-- The watermark ratio is below one, so there are enough records to evict. -/
theorem length_victims (cfg : Settings) (q : DumpQueue) (s : Storage Block) :
    (s.victims cfg.exactLimits q).length =
      ⌊cfg.exactLimits.dumpWatermarkRatio * s.memoryRecords.length⌋₊ := by
  rw [victims, List.length_take, q.length_drain, length_memoryRecords]
  refine Nat.min_eq_left (Nat.floor_le_of_le ?_)
  exact mul_le_of_le_one_left (Nat.cast_nonneg _) (le_of_lt cfg.ratio_lt_one)

/-- The queue goes by the requests that a reached state has served. -/
theorem victims_least_read {data : Block} {reqs : List (Request Block)}
    {answers : List (Option Block)} {s : Storage Block}
    (hrun : run lim q reqs (initStorage lim data) = .ok (answers, s)) {key key' : SparseKey}
    (hkey : key ∈ (s.victims lim q).map NodePriority.key) (hkey' : key' ∈ s.memoryRecords)
    (hspared : key' ∉ (s.victims lim q).map NodePriority.key) :
    pullCount key reqs ≤ pullCount key' reqs := by
  obtain ⟨node, hnode, rfl⟩ := List.mem_map.mp hkey
  rw [← candidates_keys] at hkey'
  obtain ⟨node', hcand, rfl⟩ := List.mem_map.mp hkey'
  obtain ⟨d, hd, -, -, hreads⟩ := eq_of_mem_candidates (mem_candidates_of_victim hnode)
  obtain ⟨d', hd', -, -, hreads'⟩ := eq_of_mem_candidates hcand
  calc
    pullCount node.key reqs = node.priority := by rw [hreads, (reached_counts hrun hd).1]
    _ ≤ node'.priority :=
      victims_least hnode hcand fun hmem => hspared (List.mem_map_of_mem hmem)
    _ = pullCount node'.key reqs := by rw [hreads', (reached_counts hrun hd').1]

/-- **An overflow evicts the least-read records.** -/
theorem dumptoDisk_evicts (cfg : Settings) (hover : cfg.useDiskOverflow = true) (q : DumpQueue)
    (data : Block) (reqs : List (Request Block)) (answers : List (Option Block))
    (s : Storage Block) (hrun : run cfg.exactLimits q reqs (initStorage cfg.exactLimits data) =
      .ok (answers, s)) :
    ∃ moved s', s.dumptoDisk cfg.exactLimits q = .ok s' ∧
      Evicts cfg.exactLimits reqs s moved s' := by
  obtain ⟨handed, drift, inv, -⟩ := (reached_spec hover hrun).1
  obtain ⟨s', hdump, inv', hframe, hfree, hdisk⟩ := dumptoDisk_spec (q := q) inv
  have hmoved := dumptoDisk_moved hdump
  rw [← map_slotOf_victims] at hfree
  refine ⟨(s.victims cfg.exactLimits q).map NodePriority.key, s', hdump, victims_nodup _ q s,
    ?_, ?_, ?_, ?_, hfree, ?_, ?_, hmoved.counts⟩
  · intro key hkey
    obtain ⟨node, hnode, rfl⟩ := List.mem_map.mp hkey
    rw [← candidates_keys]
    exact List.mem_map_of_mem (mem_candidates_of_victim hnode)
  · rw [List.length_map, length_victims]
  · intro key hkey key' hkey' hspared
    exact victims_least_read hrun hkey hkey' hspared
  · intro key hkey
    obtain ⟨node, hnode, rfl⟩ := List.mem_map.mp hkey
    obtain ⟨i, hi⟩ := List.mem_iff_getElem?.mp hnode
    obtain ⟨d, block, -, hd', hpool, hfile⟩ := hmoved.moved i node hi
    have hlt : i < (s.victims cfg.exactLimits q).length := (List.getElem?_eq_some_iff.mp hi).1
    refine ⟨_, block, hd', rfl, Nat.le_add_right _ _, ?_, ?_, hfile, ?_⟩
    · rw [hdisk]
      exact Nat.add_lt_add_left hlt _
    · rw [slotOf_victim hnode]
      exact hpool
    · intro key' d'' hkey'' hd'' hindex
      exact inv'.disk_inj hkey'' hd' hd'' rfl hindex
  · intro key hkey
    have hmem : s.slotOf key ∈ s'.freeRecords := by
      rw [hfree]
      exact List.mem_append_left _ (List.mem_reverse.mpr (List.mem_map_of_mem hkey))
    have hnodup := (List.nodup_append.mp (List.nodup_append.mp inv'.nodup).2.1).2.1
    exact List.count_eq_one_of_mem hnodup hmem
  · intro key hkey
    refine ⟨hmoved.kept key hkey, ?_⟩
    rw [hframe.contents]
    rfl

/-- A pool of two blocks, of which the first has been read: one is evicted. -/
theorem smallPool_evicts :
    ∃ answers s moved s', run smallPool.exactLimits dumpQueue
        [.storeData (1, 0) 10, .storeData (1, 1) 11, .pullData (1, 0)]
        (initStorage smallPool.exactLimits 0) = .ok (answers, s) ∧ s.memoryRecords.length = 2 ∧
      s.dumptoDisk smallPool.exactLimits dumpQueue = .ok s' ∧
      Evicts smallPool.exactLimits [.storeData (1, 0) 10, .storeData (1, 1) 11, .pullData (1, 0)]
        s moved s' := by
  have hany : ∃ result, run smallPool.exactLimits dumpQueue
      [.storeData (1, 0) 10, .storeData (1, 1) 11, .pullData (1, 0)]
      (initStorage smallPool.exactLimits 0) = .ok result ∧
        decide (result.2.memoryRecords.length = 2) = true :=
    exists_ok_of_any (by decide +kernel)
  obtain ⟨⟨answers, s⟩, hrun, hlen⟩ := hany
  obtain ⟨moved, s', hdump, hevicts⟩ :=
    dumptoDisk_evicts smallPool rfl dumpQueue 0 _ answers s hrun
  exact ⟨answers, s, moved, s', hrun, of_decide_eq_true hlen, hdump, hevicts⟩

end Storage

end Grvy.Ocore
