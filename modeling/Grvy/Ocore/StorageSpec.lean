import Grvy.Lib.Outcome
import Grvy.Ocore.SlotInvariant

/-!
What each storage function does in a state that satisfies the invariant: one
lemma for `DumptoDisk`, one for `GetFreeRecord`, one for each half of
`StoreData` and one for `PullData`. Every later result about an Ocore task's
storage is read off these lemmas.

With disk overflow on, the only assertion that can fail besides the lookup of
an unknown key is `!free_records.empty()`, and it fails exactly when the pool
is full of live records and the watermark ratio rounds the dump down to
nothing.
-/

namespace Grvy.Ocore.Storage

open Std (TreeMap)
open Grvy.Lib

variable {Block : Type} {lim : Limits} {q : DumpQueue}

/-! ### What a call that returned has done -/

section Returned

variable {s s' : Storage Block}

theorem dumpRecord_ok {node : NodePriority} (h : dumpRecord node s = .ok s') :
    ∃ block, s.pool[node.ocoreIndex]? = some block ∧ s' = s.moveToDisk node block := by
  rw [dumpRecord] at h
  split at h
  · cases h
  · rename_i block hblock
    exact ⟨block, hblock, (Except.ok.inj h).symm⟩

/-- The three ways out of `GetFreeRecord`. -/
theorem getFreeRecord_cases {slot : ℕ} (h : s.getFreeRecord lim q = .ok (slot, s')) :
    (s.numActiveRecords < lim.maxNumRecords ∧ s.freeRecords = [] ∧
      slot = s.numActiveRecords.toNat ∧ s' = s) ∨
    (∃ rest, s.numActiveRecords < lim.maxNumRecords ∧ s.freeRecords = slot :: rest ∧
      s' = { s with freeRecords := rest }) ∨
    (∃ s₁ rest, ¬s.numActiveRecords < lim.maxNumRecords ∧ lim.useDiskOverflow = true ∧
      s.dumptoDisk lim q = .ok s₁ ∧ s₁.freeRecords = slot :: rest ∧
      s' = { s₁ with freeRecords := rest, numActiveRecords := s₁.numActiveRecords + 1 }) := by
  by_cases hroom : s.numActiveRecords < lim.maxNumRecords
  · rw [getFreeRecord, if_pos hroom] at h
    cases hfree : s.freeRecords with
    | nil =>
        rw [hfree] at h
        cases h
        exact Or.inl ⟨hroom, rfl, rfl, rfl⟩
    | cons freeIndex rest =>
        rw [hfree] at h
        cases h
        exact Or.inr (Or.inl ⟨rest, hroom, rfl, rfl⟩)
  · rw [getFreeRecord, if_neg hroom] at h
    split at h
    · rename_i hlim
      obtain ⟨s₁, hdump, hrest⟩ := exists_of_bind_eq_ok h
      split at hrest
      · cases hrest
      · rename_i freeIndex rest hfree
        cases hrest
        exact Or.inr (Or.inr ⟨s₁, rest, hroom, hlim, hdump, hfree, rfl⟩)
    · cases h

/-- `StoreData` finds the record or enters a new one. -/
theorem enterRecord_cases {key : SparseKey} {d : Datagram}
    (h : s.enterRecord lim q key = .ok (d, s')) :
    (s.smap[key]? = some d ∧
      s' = { s with smap := s.smap.insert key { d with writeCount := d.writeCount + 1 } }) ∨
    (∃ slot s₁, s.smap[key]? = none ∧ s.getFreeRecord lim q = .ok (slot, s₁) ∧
      d = { inMem := true, index := slot, readCount := 0, writeCount := 1 } ∧
      s' = { s₁ with
        smap := s₁.smap.insert key d, numActiveRecords := s₁.numActiveRecords + 1 }) := by
  rw [enterRecord] at h
  split at h
  · rename_i hkey
    obtain ⟨⟨slot, s₁⟩, hget, hrest⟩ := exists_of_bind_eq_ok h
    cases hrest
    exact Or.inr ⟨slot, s₁, hkey, hget, rfl, rfl⟩
  · rename_i d' hkey
    cases h
    exact Or.inl ⟨hkey, rfl⟩

/-- Saving a block changes the pool or the file, and nothing else. -/
theorem saveBlock_ok {d : Datagram} {block : Block} (h : s.saveBlock d block = .ok s') :
    ∃ pool fpTmp, s' = { s with pool := pool, fpTmp := fpTmp } := by
  rw [saveBlock] at h
  split at h
  · split at h
    · exact ⟨_, _, (Except.ok.inj h).symm⟩
    · cases h
  · exact ⟨_, _, (Except.ok.inj h).symm⟩

theorem serve_storeData_ok {key : SparseKey} {block : Block} {answer : Option Block}
    (h : s.serve lim q (.storeData key block) = .ok (answer, s')) :
    answer = none ∧ ∃ d s₁ pool fpTmp, s.enterRecord lim q key = .ok (d, s₁) ∧
      s' = { s₁ with pool := pool, fpTmp := fpTmp } := by
  obtain ⟨s₁, hstore, hresult⟩ := exists_of_bind_eq_ok h
  cases hresult
  obtain ⟨⟨d, s₂⟩, henter, hsave⟩ := exists_of_bind_eq_ok hstore
  obtain ⟨pool, fpTmp, hframe⟩ := saveBlock_ok hsave
  exact ⟨rfl, d, s₂, pool, fpTmp, henter, hframe⟩

theorem serve_pullData_ok {key : SparseKey} {answer : Option Block}
    (h : s.serve lim q (.pullData key) = .ok (answer, s')) :
    ∃ d block, s.smap[key]? = some d ∧ s.loadBlock d = .ok block ∧ answer = some block ∧
      s' = { s with smap := s.smap.insert key { d with readCount := d.readCount + 1 } } := by
  obtain ⟨⟨block, s₁⟩, hpull, hresult⟩ := exists_of_bind_eq_ok h
  cases hresult
  rw [pullData] at hpull
  split at hpull
  · cases hpull
  · rename_i d hkey
    obtain ⟨block', hload, hresult⟩ := exists_of_bind_eq_ok hpull
    cases hresult
    exact ⟨d, block, hkey, hload, rfl, rfl⟩

end Returned

/-! ### DumptoDisk -/

/-- A queue entry carries the read count and the slot of its record. -/
theorem eq_of_mem_candidates {s : Storage Block} {node : NodePriority} (h : node ∈ s.candidates) :
    ∃ d, s.smap[node.key]? = some d ∧ d.inMem = true ∧ node.ocoreIndex = d.index ∧
      node.priority = d.readCount := by
  obtain ⟨key, d, hkey, hnode⟩ := mem_census.mp h
  cases hd : d.inMem with
  | false => simp [candidate, hd] at hnode
  | true =>
      simp only [candidate, hd, if_true, Option.some.injEq] at hnode
      subst hnode
      exact ⟨d, hkey, hd, rfl, rfl⟩

theorem resident_of_mem_candidates {s : Storage Block} {node : NodePriority}
    (h : node ∈ s.candidates) : Resident s node := by
  obtain ⟨d, hkey, hd, hindex, -⟩ := eq_of_mem_candidates h
  exact ⟨d, hkey, hd, hindex.symm⟩

theorem candidates_keys_nodup (s : Storage Block) :
    ((candidates s).map NodePriority.key).Nodup := by
  have hkeys : s.smap.toList.Pairwise fun a b => a.1 ≠ b.1 :=
    TreeMap.distinct_keys_toList.imp fun {a b} hne heq =>
      hne (by rw [heq]; exact Std.compare_self)
  rw [List.Nodup, List.pairwise_map]
  refine List.Pairwise.filterMap _ ?_ hkeys
  intro e e' hne node hnode node' hnode'
  cases hd : e.2.inMem <;> simp [candidate, hd] at hnode
  cases hd' : e'.2.inMem <;> simp [candidate, hd'] at hnode'
  rw [← hnode, ← hnode']
  exact hne

theorem length_candidates (s : Storage Block) :
    (candidates s).length = (heldSlots s).length := by
  rw [candidates, heldSlots, census]
  induction s.smap.toList with
  | nil => rfl
  | cons e l ih =>
      cases hd : e.2.inMem <;> simpa [candidate, heldSlot, hd] using ih

/-- Every record is either in memory or on disk. -/
theorem size_smap (s : Storage Block) :
    s.smap.size = (heldSlots s).length + (diskSlots s).length := by
  rw [← TreeMap.length_toList, heldSlots, diskSlots, census, census]
  induction s.smap.toList with
  | nil => rfl
  | cons e l ih =>
      cases hd : e.2.inMem <;> simp [heldSlot, diskSlot, hd] at ih ⊢ <;> omega

/-- The queue entries that `DumptoDisk` pops, in order. -/
def victims (lim : Limits) (q : DumpQueue) (s : Storage Block) : List NodePriority :=
  (q.drain s.candidates).take (numToDump lim s.candidates.length)

theorem mem_candidates_of_victim {s : Storage Block} {node : NodePriority}
    (h : node ∈ s.victims lim q) : node ∈ s.candidates :=
  q.mem_drain.mp (List.mem_of_mem_take h)

theorem victims_nodup (lim : Limits) (q : DumpQueue) (s : Storage Block) :
    ((s.victims lim q).map NodePriority.key).Nodup := by
  have hdrain := ((q.drain_perm s.candidates).map NodePriority.key).nodup_iff.mpr
    (candidates_keys_nodup s)
  exact hdrain.sublist ((List.take_sublist _ _).map _)

theorem length_victims_eq_min (lim : Limits) (q : DumpQueue) (s : Storage Block) :
    (s.victims lim q).length = min (numToDump lim (heldSlots s).length) (heldSlots s).length := by
  rw [victims, List.length_take, q.length_drain, length_candidates]

theorem dumptoDisk_spec {transit : List ℕ} {handed drift : ℕ} {s : Storage Block}
    (inv : SlotInv lim transit handed drift s) :
    ∃ s', s.dumptoDisk lim q = .ok s' ∧ SlotInv lim transit handed drift s' ∧
      DumpFrame { s with overflowTriggered := true } s' ∧
      s'.freeRecords =
        ((s.victims lim q).map NodePriority.ocoreIndex).reverse ++ s.freeRecords ∧
      s'.numActiveDiskRecords = s.numActiveDiskRecords + (s.victims lim q).length := by
  have hinv : SlotInv lim transit handed drift { s with overflowTriggered := true } :=
    ⟨inv.pool_length, inv.handed_le, inv.slots, inv.disk, inv.file, inv.count⟩
  exact dumpRecords_spec hinv
    (fun node h => resident_of_mem_candidates (mem_candidates_of_victim h))
    (victims_nodup lim q s)

/-! ### GetFreeRecord -/

/-- A slot for a new record, in transit to it. -/
structure Allotted (lim : Limits) (s : Storage Block) (slot : ℕ) (s' : Storage Block) : Prop where
  inv : ∃ drift, SlotInv lim [slot] (max s.handedOut (slot + 1)) drift s' ∧
    Phase lim [slot] (max s.handedOut (slot + 1)) drift s'
  contents : s'.contents = s.contents
  keys : ∀ key : SparseKey, s'.smap[key]? = none ↔ s.smap[key]? = none
  slot_le : slot ≤ s.handedOut

/-- No slot is left: the pool is full of live records and the overflow dumps
none of them. -/
def OutOfSlots (lim : Limits) (s : Storage Block) : Prop :=
  (heldSlots s).length = lim.maxNumRecords ∧ numToDump lim lim.maxNumRecords = 0

/-- The first return path: before any overflow the slots are handed out in
order. -/
theorem allotted_next {s : Storage Block} (h : Inv lim s)
    (hroom : s.numActiveRecords < lim.maxNumRecords) (hfree : s.freeRecords = []) :
    s.getFreeRecord lim q = .ok (s.handedOut, s) ∧ Allotted lim s s.handedOut s := by
  obtain ⟨handed, drift, inv, phase⟩ := h
  obtain rfl := inv.handedOut_eq
  have hlen := inv.length_eq
  have hcount := inv.count
  have hhanded := inv.handed_le
  rw [hfree, List.length_nil, Nat.zero_add] at hlen
  -- after an overflow an empty free stack means a full pool
  have hover : s.overflowTriggered = false := by
    rw [Bool.eq_false_iff]
    intro hover
    rw [Phase, if_pos hover] at phase
    omega
  simp only [Phase, hover, Bool.false_eq_true, if_false] at phase
  obtain ⟨hdrift, -, hdisk⟩ := phase
  have hslot : s.numActiveRecords.toNat = s.handedOut := by omega
  have hnext : max s.handedOut (s.handedOut + 1) = s.handedOut + 1 := by omega
  refine ⟨by simp [getFreeRecord, hroom, hfree, hslot], ⟨drift, ?_, ?_⟩, rfl,
    fun _ => Iff.rfl, le_refl _⟩
  · rw [hnext]
    refine ⟨inv.pool_length, by omega, ?_, inv.disk, inv.file, hcount⟩
    rw [List.range_succ]
    exact (List.Perm.cons _ inv.slots).trans (List.perm_append_singleton _ _).symm
  · simp only [Phase, hover, Bool.false_eq_true, if_false]
    exact ⟨hdrift, hfree, hdisk⟩

/-- The second return path: a slot that an overflow freed is taken from the
stack. -/
theorem allotted_recycled {s : Storage Block} (h : Inv lim s)
    (hroom : s.numActiveRecords < lim.maxNumRecords) {slot : ℕ} {rest : List ℕ}
    (hfree : s.freeRecords = slot :: rest) :
    s.getFreeRecord lim q = .ok (slot, { s with freeRecords := rest }) ∧
      Allotted lim s slot { s with freeRecords := rest } := by
  obtain ⟨handed, drift, inv, phase⟩ := h
  obtain rfl := inv.handedOut_eq
  have hover : s.overflowTriggered = true := by
    by_contra hover
    rw [Phase, if_neg hover, hfree] at phase
    exact List.cons_ne_nil _ _ phase.2.1
  rw [Phase, if_pos hover] at phase
  obtain ⟨hfull, hdrift, hrecords⟩ := phase
  have hlt : slot < s.handedOut := inv.lt_handed (by simp [hfree])
  have hslot : max s.handedOut (slot + 1) = s.handedOut := max_eq_left hlt
  refine ⟨by simp [getFreeRecord, hroom, hfree], ⟨drift, ?_, ?_⟩, rfl, fun _ => Iff.rfl, hlt.le⟩
  · rw [hslot]
    exact ⟨inv.pool_length, inv.handed_le, inv.slots_of_free hfree, inv.disk, inv.file, inv.count⟩
  · rw [hslot]
    simp only [Phase, hover, if_true]
    refine ⟨hfull, hdrift, ?_⟩
    change _ < _ + (heldSlots s).length + s.numActiveDiskRecords
    simp only [List.length_nil, List.length_singleton] at hrecords ⊢
    omega

/-- The counter can reach the limit only when every slot has been handed out. -/
theorem handedOut_of_not_room {handed drift : ℕ} {s : Storage Block}
    (inv : SlotInv lim [] handed drift s) (phase : Phase lim [] handed drift s)
    (hroom : ¬s.numActiveRecords < lim.maxNumRecords) :
    handed = lim.maxNumRecords ∧
      lim.maxNumRecords ≤ (heldSlots s).length + s.numActiveDiskRecords := by
  have hlen := inv.length_eq
  have hcount := inv.count
  have hhanded := inv.handed_le
  rw [List.length_nil, Nat.zero_add] at hlen
  by_cases hover : s.overflowTriggered = true
  · rw [Phase, if_pos hover, List.length_nil] at phase
    omega
  · rw [Phase, if_neg hover] at phase
    rw [phase.2.1, List.length_nil] at hlen
    omega

/-- The third return path: an overflow frees slots, the last of which is handed
out again, unless it has freed none. -/
theorem allotted_of_overflow (hlim : lim.useDiskOverflow = true) {s : Storage Block}
    (h : Inv lim s) (hroom : ¬s.numActiveRecords < lim.maxNumRecords) :
    (∃ slot s', s.getFreeRecord lim q = .ok (slot, s') ∧ Allotted lim s slot s') ∨
      (s.getFreeRecord lim q = .error .noFreeRecord ∧ OutOfSlots lim s) := by
  obtain ⟨handed, drift, inv, phase⟩ := h
  obtain rfl := inv.handedOut_eq
  obtain ⟨hfull, hrecords⟩ := handedOut_of_not_room inv phase hroom
  obtain ⟨s₁, hdump, inv₁, hframe, hfree₁, hdisk₁⟩ := dumptoDisk_spec (q := q) inv
  have hevicted := length_victims_eq_min lim q s
  cases hfree : s₁.freeRecords with
  | nil =>
      right
      have hget : s.getFreeRecord lim q = .error .noFreeRecord := by
        rw [getFreeRecord, if_neg hroom, if_pos hlim, hdump]
        simp [bind, Except.bind, hfree]
      rw [hfree] at hfree₁
      obtain ⟨hnone, hfree₀⟩ := List.append_eq_nil_iff.mp hfree₁.symm
      rw [List.reverse_eq_nil_iff, List.map_eq_nil_iff] at hnone
      have hlen := inv.length_eq
      rw [List.length_nil, Nat.zero_add, hfree₀, List.length_nil] at hlen
      have hheld : (heldSlots s).length = lim.maxNumRecords := by omega
      rw [hnone, List.length_nil, hheld] at hevicted
      refine ⟨hget, hheld, ?_⟩
      by_cases hzero : lim.maxNumRecords = 0
      · rw [hzero, numToDump_zero]
      · omega
  | cons slot rest =>
      left
      have hget : s.getFreeRecord lim q = .ok (slot,
          { s₁ with freeRecords := rest, numActiveRecords := s₁.numActiveRecords + 1 }) := by
        rw [getFreeRecord, if_neg hroom, if_pos hlim, hdump]
        simp [bind, Except.bind, hfree]
      have hover : s₁.overflowTriggered = true := hframe.overflow
      have hlt : slot < s.handedOut := inv₁.lt_handed (by simp [hfree])
      have hslot : max s.handedOut (slot + 1) = s.handedOut := max_eq_left hlt
      have hlen := inv.length_eq
      have hlen₁ := inv₁.length_eq
      rw [List.length_nil, Nat.zero_add] at hlen
      rw [List.length_nil, Nat.zero_add, hfree₁, List.length_append, List.length_reverse,
        List.length_map] at hlen₁
      refine ⟨slot, _, hget, ⟨drift + 1, ?_, ?_⟩, hframe.contents, hframe.keys, hlt.le⟩
      · rw [hslot]
        refine ⟨inv₁.pool_length, inv.handed_le, inv₁.slots_of_free hfree, inv₁.disk,
          inv₁.file, ?_⟩
        have hcount₁ := inv₁.count
        change s₁.numActiveRecords + 1 = (heldSlots s₁).length + _
        omega
      · rw [hslot]
        simp only [Phase, hover, if_true]
        refine ⟨hfull, Nat.succ_pos drift, ?_⟩
        change _ < _ + (heldSlots s₁).length + s₁.numActiveDiskRecords
        rw [List.length_singleton]
        omega

theorem getFreeRecord_spec (hlim : lim.useDiskOverflow = true) {s : Storage Block}
    (h : Inv lim s) :
    (∃ slot s', s.getFreeRecord lim q = .ok (slot, s') ∧ Allotted lim s slot s') ∨
      (s.getFreeRecord lim q = .error .noFreeRecord ∧ OutOfSlots lim s) := by
  by_cases hroom : s.numActiveRecords < lim.maxNumRecords
  · left
    cases hfree : s.freeRecords with
    | nil => exact ⟨_, _, allotted_next h hroom hfree⟩
    | cons slot rest => exact ⟨_, _, allotted_recycled h hroom hfree⟩
  · exact allotted_of_overflow hlim h hroom

/-! ### StoreData -/

/-- Rewriting the counts of a record disturbs nothing. -/
theorem touch_spec {s : Storage Block} {key : SparseKey} {d : Datagram} (h : Inv lim s)
    (d' : Datagram) (hkey : s.smap[key]? = some d) (hmem : d'.inMem = d.inMem)
    (hindex : d'.index = d.index) :
    Inv lim { s with smap := s.smap.insert key d' } ∧
      ({ s with smap := s.smap.insert key d' } : Storage Block).contents = s.contents ∧
      ({ s with smap := s.smap.insert key d' } : Storage Block).handedOut = s.handedOut := by
  obtain ⟨handed, drift, inv, phase⟩ := h
  have hheld : (census heldSlot (s.smap.insert key d')).Perm (heldSlots s) :=
    census_insert_of_eq heldSlot hkey (by simp [heldSlot, hmem, hindex])
  have hdisk : (census diskSlot (s.smap.insert key d')).Perm (diskSlots s) :=
    census_insert_of_eq diskSlot hkey (by simp [diskSlot, hmem, hindex])
  have hlen : (census heldSlot (s.smap.insert key d')).length = (heldSlots s).length :=
    hheld.length_eq
  refine ⟨⟨handed, drift, ⟨inv.pool_length, inv.handed_le,
    (List.Perm.append_right _ hheld).trans inv.slots, hdisk.trans inv.disk, inv.file, ?_⟩, ?_⟩,
    ?_, (List.Perm.append_right _ hheld).length_eq⟩
  · exact inv.count.trans (by rw [← hlen]; rfl)
  · simp only [Phase, heldSlots] at phase ⊢
    rw [hlen]
    exact phase
  · funext key'
    by_cases hk : key' = key
    · subst hk
      rw [contents, TreeMap.getElem?_insert_self, contents, hkey]
      simp [hmem, hindex]
    · rw [contents, getElem?_insert_of_ne hk, contents]

/-- The slots handed out for a store request under `key`: one for a new record,
none for an old one. -/
def allotted (lim : Limits) (q : DumpQueue) (key : SparseKey) (s : Storage Block) : List ℕ :=
  match s.smap[key]? with
  | some _ => []
  | none =>
      match s.getFreeRecord lim q with
      | .ok (slot, _) => [slot]
      | .error _ => []

/-- The record a store request writes to: `e` is its entry in the map and `d`
what `StoreData` goes by. -/
structure Entered (lim : Limits) (q : DumpQueue) (s : Storage Block) (key : SparseKey)
    (d : Datagram) (s' : Storage Block) : Prop where
  inv : Inv lim s'
  entry : ∃ e, s'.smap[key]? = some e ∧ e.inMem = d.inMem ∧ e.index = d.index
  contents : ∀ key', key' ≠ key → s'.contents key' = s.contents key'
  keys : ∀ key', key' ≠ key → (s'.smap[key']? = none ↔ s.smap[key']? = none)
  handed : ∀ x, x < s'.handedOut ↔ x < s.handedOut ∨ x ∈ allotted lim q key s

/-- A record the map knows stays where it is. -/
theorem entered_old {s : Storage Block} (h : Inv lim s) {key : SparseKey} {d : Datagram}
    (hkey : s.smap[key]? = some d) :
    ∃ s', s.enterRecord lim q key = .ok (d, s') ∧ Entered lim q s key d s' := by
  obtain ⟨hinv, hcontents, hhanded⟩ :=
    touch_spec h { d with writeCount := d.writeCount + 1 } hkey rfl rfl
  refine ⟨_, by rw [enterRecord, hkey], hinv, ⟨_, TreeMap.getElem?_insert_self, rfl, rfl⟩,
    fun key' _ => congrFun hcontents key', ?_, ?_⟩
  · intro key' hk
    rw [getElem?_insert_of_ne hk]
  · intro x
    rw [hhanded]
    simp [allotted, hkey]

/-- A new record moves into the slot allotted to it. -/
theorem entered_new {s s₁ : Storage Block} {key : SparseKey} {slot : ℕ}
    (hkey : s.smap[key]? = none) (hget : s.getFreeRecord lim q = .ok (slot, s₁))
    (hallot : Allotted lim s slot s₁) :
    ∃ d s', s.enterRecord lim q key = .ok (d, s') ∧ Entered lim q s key d s' := by
  obtain ⟨⟨drift, inv, phase⟩, hcontents, hkeys, hle⟩ := hallot
  have hnone : s₁.smap[key]? = none := (hkeys key).mpr hkey
  set d : Datagram := { inMem := true, index := slot, readCount := 0, writeCount := 1 } with hd
  have hheld : (census heldSlot (s₁.smap.insert key d)).Perm ([slot] ++ heldSlots s₁) :=
    census_insert_of_getElem?_eq_none heldSlot d hnone
  have hdisk : (census diskSlot (s₁.smap.insert key d)).Perm (diskSlots s₁) :=
    census_insert_of_getElem?_eq_none diskSlot d hnone
  have hlen := hheld.length_eq
  rw [List.length_append, List.length_singleton] at hlen
  set s₂ : Storage Block := { s₁ with
    smap := s₁.smap.insert key d, numActiveRecords := s₁.numActiveRecords + 1 } with hs₂
  have inv₂ : SlotInv lim [] (max s.handedOut (slot + 1)) drift s₂ := by
    refine ⟨inv.pool_length, inv.handed_le, ?_, hdisk.trans inv.disk, inv.file, ?_⟩
    · refine (List.Perm.append_right _ hheld).trans ?_
      rw [List.append_assoc]
      exact inv.slots
    · have hcount := inv.count
      simp only [hs₂, heldSlots] at hcount hlen ⊢
      omega
  refine ⟨d, s₂, by rw [enterRecord, hkey, hget]; rfl, ⟨_, drift, inv₂, ?_⟩,
    ⟨d, TreeMap.getElem?_insert_self, rfl, rfl⟩, ?_, ?_, ?_⟩
  · simp only [hs₂, Phase, heldSlots, List.length_singleton, List.length_nil] at phase hlen ⊢
    rw [hlen]
    simpa [Nat.add_comm] using phase
  · intro key' hk
    rw [← hcontents]
    simp only [hs₂, contents, getElem?_insert_of_ne hk]
  · intro key' hk
    rw [hs₂, getElem?_insert_of_ne hk]
    exact hkeys key'
  · intro x
    rw [inv₂.handedOut_eq]
    simp only [allotted, hkey, hget, List.mem_singleton]
    omega

theorem enterRecord_spec (hlim : lim.useDiskOverflow = true) {s : Storage Block}
    (h : Inv lim s) (key : SparseKey) :
    (∃ d s', s.enterRecord lim q key = .ok (d, s') ∧ Entered lim q s key d s') ∨
      (s.enterRecord lim q key = .error .noFreeRecord ∧ s.smap[key]? = none ∧
        OutOfSlots lim s) := by
  cases hkey : s.smap[key]? with
  | some d => exact Or.inl ⟨d, entered_old h hkey⟩
  | none =>
      obtain ⟨slot, s₁, hget, hallot⟩ | ⟨hget, hout⟩ := getFreeRecord_spec (q := q) hlim h
      · exact Or.inl (entered_new hkey hget hallot)
      · exact Or.inr ⟨by rw [enterRecord, hkey, hget]; rfl, rfl, hout⟩

/-- Overwriting a pool slot changes the one record that holds it. -/
theorem contents_set_pool {handed drift : ℕ} {s : Storage Block} {key : SparseKey} {e : Datagram}
    (inv : SlotInv lim [] handed drift s) (hkey : s.smap[key]? = some e) (hmem : e.inMem = true)
    (block : Block) :
    ({ s with pool := s.pool.set e.index block } : Storage Block).contents =
      Function.update s.contents key (some block) := by
  have hlt : e.index < s.pool.length := inv.held_lt hkey hmem
  funext key'
  by_cases hk : key' = key
  · subst hk
    rw [Function.update_self, contents_of_inMem (by exact hkey) hmem]
    simp [hlt]
  · rw [Function.update_of_ne hk]
    refine contents_congr rfl ?_ fun _ _ _ => rfl
    intro e' he' hmem'
    have hne : e.index ≠ e'.index := fun heq => hk (inv.held_inj he' hkey hmem' hmem heq.symm)
    exact List.getElem?_set_ne hne

/-- Overwriting a block of the file changes the one record it belongs to. -/
theorem contents_update_fpTmp {handed drift : ℕ} {s : Storage Block} {key : SparseKey}
    {e : Datagram} (inv : SlotInv lim [] handed drift s) (hkey : s.smap[key]? = some e)
    (hmem : e.inMem = false) (block : Block) :
    ({ s with fpTmp := Function.update s.fpTmp e.index (some block) } : Storage Block).contents =
      Function.update s.contents key (some block) := by
  funext key'
  by_cases hk : key' = key
  · subst hk
    rw [Function.update_self, contents_of_onDisk (by exact hkey) hmem]
    exact Function.update_self ..
  · rw [Function.update_of_ne hk]
    refine contents_congr rfl (fun _ _ _ => rfl) ?_
    intro e' he' hmem'
    have hne : e'.index ≠ e.index := fun heq => hk (inv.disk_inj he' hkey hmem' hmem heq)
    exact Function.update_of_ne hne _ _

theorem saveBlock_spec {s : Storage Block} {key : SparseKey} {d e : Datagram} (h : Inv lim s)
    (hkey : s.smap[key]? = some e) (hmem : e.inMem = d.inMem) (hindex : e.index = d.index)
    (block : Block) :
    ∃ s', s.saveBlock d block = .ok s' ∧ Inv lim s' ∧
      s'.contents = Function.update s.contents key (some block) ∧ s'.smap = s.smap ∧
      s'.freeRecords = s.freeRecords := by
  obtain ⟨handed, drift, inv, phase⟩ := h
  cases hd : d.inMem with
  | true =>
      rw [hd] at hmem
      have hlt : d.index < s.pool.length := hindex ▸ inv.held_lt hkey hmem
      refine ⟨{ s with pool := s.pool.set d.index block }, by simp [saveBlock, hd, hlt],
        ⟨handed, drift, ⟨?_, inv.handed_le, inv.slots, inv.disk, inv.file, inv.count⟩, phase⟩,
        ?_, rfl, rfl⟩
      · simp [inv.pool_length]
      · rw [← hindex]
        exact contents_set_pool inv hkey hmem block
  | false =>
      rw [hd] at hmem
      refine ⟨{ s with fpTmp := Function.update s.fpTmp d.index (some block) },
        by simp [saveBlock, hd],
        ⟨handed, drift, ⟨inv.pool_length, inv.handed_le, inv.slots, inv.disk, ?_, inv.count⟩,
          phase⟩, ?_, rfl, rfl⟩
      · intro i hi
        by_cases hi' : i = d.index
        · exact ⟨block, by simp [hi']⟩
        · obtain ⟨block', hblock'⟩ := inv.file i hi
          exact ⟨block', by rw [← hblock']; exact Function.update_of_ne hi' _ _⟩
      · rw [← hindex]
        exact contents_update_fpTmp inv hkey hmem block

/-- What a served `StoreData` leaves behind. -/
structure Stored (lim : Limits) (q : DumpQueue) (s : Storage Block) (key : SparseKey)
    (block : Block) (s' : Storage Block) : Prop where
  inv : Inv lim s'
  contents : s'.contents = Function.update s.contents key (some block)
  keys : ∀ key' : SparseKey, s'.smap[key']? = none ↔ s.smap[key']? = none ∧ key' ≠ key
  handed : ∀ x, x < s'.handedOut ↔ x < s.handedOut ∨ x ∈ allotted lim q key s

/-- With overflow on, `StoreData` stores the block under its key and touches no
other key, or it stops because no slot is left. -/
theorem storeData_spec (hlim : lim.useDiskOverflow = true) {s : Storage Block}
    (h : Inv lim s) (key : SparseKey) (block : Block) :
    (∃ s', s.storeData lim q key block = .ok s' ∧ Stored lim q s key block s') ∨
      (s.storeData lim q key block = .error .noFreeRecord ∧ s.smap[key]? = none ∧
        OutOfSlots lim s) := by
  obtain ⟨d, s₁, henter, hentered⟩ | ⟨henter, hnone, hout⟩ :=
    enterRecord_spec (q := q) hlim h key
  · left
    obtain ⟨e, hkey, hmem, hindex⟩ := hentered.entry
    obtain ⟨s', hsave, hinv, hcontents, hsmap, hfree⟩ :=
      saveBlock_spec hentered.inv hkey hmem hindex block
    refine ⟨s', by rw [storeData, henter]; exact hsave, hinv, ?_, ?_, ?_⟩
    · rw [hcontents]
      funext key'
      by_cases hk : key' = key
      · rw [hk, Function.update_self, Function.update_self]
      · rw [Function.update_of_ne hk, Function.update_of_ne hk, hentered.contents key' hk]
    · intro key'
      rw [hsmap]
      by_cases hk : key' = key
      · subst hk
        simp [hkey]
      · rw [hentered.keys key' hk]
        simp [hk]
    · intro x
      have hhanded : s'.handedOut = s₁.handedOut := by
        rw [handedOut, handedOut, heldSlots, heldSlots, hsmap, hfree]
      rw [hhanded, hentered.handed]
  · right
    exact ⟨by rw [storeData, henter]; rfl, hnone, hout⟩

/-! ### PullData -/

/-- What a served `PullData` leaves behind. -/
structure Pulled (lim : Limits) (s : Storage Block) (key : SparseKey) (block : Block)
    (s' : Storage Block) : Prop where
  sent : s.contents key = some block
  inv : Inv lim s'
  contents : s'.contents = s.contents
  keys : ∀ key' : SparseKey, s'.smap[key']? = none ↔ s.smap[key']? = none
  handed : s'.handedOut = s.handedOut

/-- `PullData` of a record the map knows sends the block its key denotes. -/
theorem pullData_spec {s : Storage Block} (h : Inv lim s) {key : SparseKey} {d : Datagram}
    (hkey : s.smap[key]? = some d) :
    ∃ block s', s.pullData key = .ok (block, s') ∧ Pulled lim s key block s' := by
  obtain ⟨hinv, hcontents, hhanded⟩ :=
    touch_spec h { d with readCount := d.readCount + 1 } hkey rfl rfl
  obtain ⟨handed, drift, inv, -⟩ := h
  obtain ⟨block, hblock⟩ := inv.contents_isSome hkey
  have hload : loadBlock d
      { s with smap := s.smap.insert key { d with readCount := d.readCount + 1 } } =
        .ok block := by
    cases hd : d.inMem with
    | true =>
        rw [contents_of_inMem hkey hd] at hblock
        simp [loadBlock, hd, hblock]
    | false =>
        rw [contents_of_onDisk hkey hd] at hblock
        simp [loadBlock, hd, hblock]
  refine ⟨block, _, by rw [pullData, hkey]; simp only [hload]; rfl, hblock, hinv, hcontents, ?_,
    hhanded⟩
  intro key'
  by_cases hk : key' = key
  · subst hk
    simp [hkey]
  · rw [getElem?_insert_of_ne hk]

theorem pullData_of_none {s : Storage Block} {key : SparseKey} (hkey : s.smap[key]? = none) :
    s.pullData key = .error .unknownKey := by
  rw [pullData, hkey]

end Grvy.Ocore.Storage
