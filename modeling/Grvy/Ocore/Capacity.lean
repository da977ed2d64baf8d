import Mathlib.Data.List.Dedup
import Grvy.Ocore.SlotConservation

/-!
How far the pool of an Ocore task reaches.

Two properties one expects of the overflow mechanism hold only within a bound.
A task that overflows finds a slot for every new record if and only if the
watermark ratio dumps at least one record of a full pool: below that,
`num_to_dump` is zero, and the first overflow frees nothing. And
`num_active_records` counts the records in memory only as long as no more than
`max_num_records` different records have been stored: from the first overflow on
it is too large, and after enough of them it is no `int` any more.
-/

namespace Grvy.Ocore

open Std (TreeMap)
open Grvy.Lib

variable {Block : Type} {lim : Limits} {q : DumpQueue}

/-- The key a request stores under. -/
def Request.storedKey : Request Block → Option SparseKey
  | .storeData key _ => some key
  | .pullData _ => none

/-- The different keys a sequence of requests stores under. -/
def storedKeys (reqs : List (Request Block)) : List SparseKey :=
  (reqs.filterMap Request.storedKey).dedup

namespace Storage

/-! ### Records in memory -/

/-- How many records reside in memory. -/
def numInMem (s : Storage Block) : ℕ := s.smap.toList.countP fun e => e.2.inMem

theorem numInMem_eq (s : Storage Block) : s.numInMem = (heldSlots s).length := by
  rw [numInMem, heldSlots, census]
  induction s.smap.toList with
  | nil => rfl
  | cons e l ih =>
      cases hd : e.2.inMem <;> simpa [heldSlot, hd] using ih

/-! ### Running out of slots -/

theorem one_le_numToDump_iff (lim : Limits) (size : ℕ) :
    1 ≤ numToDump lim size ↔ 1 ≤ lim.rounding.round (lim.dumpWatermarkRatio * size) :=
  Nat.one_le_floor_iff _

theorem getFreeRecord_of_outOfSlots (hlim : lim.useDiskOverflow = true) {s : Storage Block}
    (h : Inv lim s) (hout : OutOfSlots lim s) :
    s.getFreeRecord lim q = .error .noFreeRecord := by
  obtain ⟨handed, drift, inv, -⟩ := h
  obtain ⟨hheld, hzero⟩ := hout
  have hlen := inv.length_eq
  have hhanded := inv.handed_le
  have hcount := inv.count
  rw [List.length_nil, Nat.zero_add] at hlen
  obtain ⟨s₁, hdump, -, -, hfree, -⟩ := dumptoDisk_spec (q := q) inv
  have hevicted := length_victims_eq_min lim q s
  rw [hheld, hzero, Nat.zero_min, List.length_eq_zero_iff] at hevicted
  have hempty : s.freeRecords = [] := List.eq_nil_of_length_eq_zero (by omega)
  have hroom : ¬s.numActiveRecords < lim.maxNumRecords := by omega
  rw [getFreeRecord, if_neg hroom, if_pos hlim, hdump]
  simp [bind, Except.bind, hfree, hevicted, hempty]

/-- The request stores a record the task does not know yet. -/
def StoresNew (r : Request Block) (s : Storage Block) : Prop :=
  ∃ key, r.storedKey = some key ∧ s.smap[key]? = none

/-- Each new record of the sequence gets a slot of the pool, and the assertion
`!free_records.empty()` does not fail. The counter is an `int`, largest at the end of a
request: nothing is known of a sequence once it has overflowed. -/
def FindsSlots (lim : Limits) (q : DumpQueue) : List (Request Block) → Storage Block → Prop
  | [], _ => True
  | r :: rs, s =>
      (StoresNew r s → ∃ slot s', s.getFreeRecord lim q = .ok (slot, s') ∧
        slot < lim.maxNumRecords) ∧
      match s.serve lim q r with
      | .ok (_, s') => s'.numActiveRecords < 2 ^ 31 ∧ FindsSlots lim q rs s'
      | .error e => e ≠ .noFreeRecord

/-- What `num_active_records` is once a new record has been stored. -/
def counterAfter (lim : Limits) (s : Storage Block) : ℤ :=
  if s.numActiveRecords < lim.maxNumRecords then s.numActiveRecords + 1
  else s.numActiveRecords - min (numToDump lim s.numInMem) s.numInMem + 2

/-- There is room by count, or `DumptoDisk` dumps something of a full pool; and the
counter does not overflow. -/
def HasRoom (lim : Limits) (s : Storage Block) : Prop :=
  (s.numActiveRecords < lim.maxNumRecords ∨
    1 ≤ lim.rounding.round (lim.dumpWatermarkRatio * lim.maxNumRecords)) ∧
  s.counterAfter lim < 2 ^ 31

/-- Whenever the sequence stores a new record there is room. -/
def RoomKept (lim : Limits) (q : DumpQueue) : List (Request Block) → Storage Block → Prop
  | [], _ => True
  | r :: rs, s =>
      (StoresNew r s → HasRoom lim s) ∧
        ∀ answer s', s.serve lim q r = .ok (answer, s') → RoomKept lim q rs s'

section Slots

variable {r : Request Block} {s s' : Storage Block} {answer : Option Block}

theorem storesNew_storeData {key : SparseKey} {block : Block} :
    StoresNew (.storeData key block) s ↔ s.smap[key]? = none := by
  simp [StoresNew, Request.storedKey]

theorem not_storesNew_pullData {key : SparseKey} : ¬StoresNew (.pullData key) s := by
  rintro ⟨_, hkey, -⟩
  cases hkey

/-- Each turn of the dump loop counts one record less. -/
theorem counter_dumpRecords {nodes : List NodePriority} (h : dumpRecords nodes s = .ok s') :
    s'.numActiveRecords = s.numActiveRecords - nodes.length := by
  induction nodes generalizing s with
  | nil =>
      cases h
      simp
  | cons node nodes ih =>
      obtain ⟨s₁, hdump, hrest⟩ := exists_of_bind_eq_ok h
      obtain ⟨block, -, rfl⟩ := dumpRecord_ok hdump
      have hcount : (s.moveToDisk node block).numActiveRecords = s.numActiveRecords - 1 := rfl
      rw [ih hrest, hcount, List.length_cons]
      push_cast
      ring

theorem counter_getFreeRecord {slot : ℕ} (h : s.getFreeRecord lim q = .ok (slot, s')) :
    s'.numActiveRecords + 1 = s.counterAfter lim ∧
      (s'.overflowTriggered = true →
        s.overflowTriggered = true ∨ ¬s.numActiveRecords < lim.maxNumRecords) := by
  obtain ⟨hroom, -, -, rfl⟩ | ⟨rest, hroom, -, rfl⟩ | ⟨s₁, rest, hroom, -, hdump, -, rfl⟩ :=
    getFreeRecord_cases h
  · rw [counterAfter, if_pos hroom]
    exact ⟨rfl, Or.inl⟩
  · rw [counterAfter, if_pos hroom]
    exact ⟨rfl, Or.inl⟩
  · refine ⟨?_, fun _ => Or.inr hroom⟩
    have hcount : s₁.numActiveRecords = s.numActiveRecords - (s.victims lim q).length :=
      counter_dumpRecords (s := { s with overflowTriggered := true }) hdump
    have hvictims := length_victims_eq_min lim q s
    rw [counterAfter, if_neg hroom, numInMem_eq, ← hvictims]
    change s₁.numActiveRecords + 1 + 1 = _
    omega

/-- What a request does to the counter, and when it sets off an overflow. -/
theorem counter_serve (h : s.serve lim q r = .ok (answer, s')) :
    (StoresNew r s → s'.numActiveRecords = s.counterAfter lim ∧
      (s'.overflowTriggered = true →
        s.overflowTriggered = true ∨ ¬s.numActiveRecords < lim.maxNumRecords)) ∧
    (¬StoresNew r s → s'.numActiveRecords = s.numActiveRecords ∧
      s'.overflowTriggered = s.overflowTriggered) := by
  cases r with
  | storeData key block =>
      rw [storesNew_storeData]
      obtain ⟨-, d, s₁, pool, fpTmp, henter, rfl⟩ := serve_storeData_ok h
      obtain ⟨hkey, rfl⟩ | ⟨slot, s₂, hkey, hget, -, rfl⟩ := enterRecord_cases henter
      · rw [hkey]
        exact ⟨fun hnone => (Option.some_ne_none d hnone).elim, fun _ => ⟨rfl, rfl⟩⟩
      · exact ⟨fun _ => counter_getFreeRecord hget, fun hnot => (hnot hkey).elim⟩
  | pullData key =>
      obtain ⟨d, block, -, -, -, rfl⟩ := serve_pullData_ok h
      exact ⟨fun hnew => (not_storesNew_pullData hnew).elim, fun _ => ⟨rfl, rfl⟩⟩

/-- A task that has always had room: an overflow has dumped something. -/
structure Serviceable (lim : Limits) (s : Storage Block) : Prop where
  inv : Inv lim s
  counter : s.numActiveRecords < 2 ^ 31
  dumps : s.overflowTriggered = true → 1 ≤ numToDump lim lim.maxNumRecords

theorem serviceable_initStorage (lim : Limits) (data : Block) :
    Serviceable lim (initStorage lim data) where
  inv := inv_initStorage lim data
  counter := by simp [initStorage]
  dumps h := by cases h

/-- Such a task is out of slots when the first overflow of its pool dumps nothing. -/
theorem Serviceable.outOfSlots_iff (h : Serviceable lim s) :
    OutOfSlots lim s ↔ ¬(s.numActiveRecords < lim.maxNumRecords) ∧
      ¬1 ≤ numToDump lim lim.maxNumRecords := by
  obtain ⟨handed, drift, inv, phase⟩ := h.inv
  have hlen := inv.length_eq
  have hcount := inv.count
  have hhanded := inv.handed_le
  rw [List.length_nil, Nat.zero_add] at hlen
  constructor
  · rintro ⟨hheld, hzero⟩
    omega
  · rintro ⟨hfull, hzero⟩
    have hover : ¬s.overflowTriggered = true := fun hover => hzero (h.dumps hover)
    rw [Phase, if_neg hover] at phase
    exact ⟨by omega, by omega⟩

/-- What is read needs no room. -/
theorem Serviceable.pullData_served (h : Serviceable lim s) (key : SparseKey) :
    match s.serve lim q (.pullData key) with
    | .ok (_, s') => s'.numActiveRecords < 2 ^ 31
    | .error e => e ≠ .noFreeRecord := by
  cases hkey : s.smap[key]? with
  | none =>
      rw [serve, pullData_of_none hkey]
      exact Failure.noConfusion
  | some d =>
      obtain ⟨block, s', hpull, -⟩ := pullData_spec h.inv hkey
      have hserve : s.serve lim q (.pullData key) = .ok (some block, s') := by
        rw [serve, hpull]
        rfl
      have hcounter := ((counter_serve hserve).2 not_storesNew_pullData).1
      rw [hserve]
      change s'.numActiveRecords < 2 ^ 31
      rw [hcounter]
      exact h.counter

/-- A record that is not refused finds a slot if it is new. -/
theorem Serviceable.slot_of_storeData (hlim : lim.useDiskOverflow = true) (h : Serviceable lim s)
    {key : SparseKey} {block : Block} (hkey : s.smap[key]? = none)
    (hstore : s.storeData lim q key block = .ok s') :
    (s.numActiveRecords < lim.maxNumRecords ∨
        1 ≤ lim.rounding.round (lim.dumpWatermarkRatio * lim.maxNumRecords)) ∧
      ∃ slot s₁, s.getFreeRecord lim q = .ok (slot, s₁) ∧ slot < lim.maxNumRecords := by
  rcases getFreeRecord_spec (q := q) hlim h.inv with ⟨slot, s₁, hget, hallot⟩ | ⟨hget, -⟩
  · have hnot : ¬OutOfSlots lim s := fun hout => by
      rw [getFreeRecord_of_outOfSlots hlim h.inv hout] at hget
      cases hget
    rw [h.outOfSlots_iff, not_and_or, not_not, not_not, one_le_numToDump_iff] at hnot
    exact ⟨hnot, slot, s₁, hget, hallot.not_held.2⟩
  · rw [storeData, enterRecord, hkey] at hstore
    simp only [hget] at hstore
    cases hstore

/-- A request is served as it should be if and only if there is room. -/
theorem Serviceable.step_iff (hlim : lim.useDiskOverflow = true) (h : Serviceable lim s)
    (r : Request Block) :
    ((StoresNew r s → ∃ slot s', s.getFreeRecord lim q = .ok (slot, s') ∧
        slot < lim.maxNumRecords) ∧
      match s.serve lim q r with
      | .ok (_, s') => s'.numActiveRecords < 2 ^ 31
      | .error e => e ≠ .noFreeRecord) ↔
    (StoresNew r s → HasRoom lim s) := by
  cases r with
  | pullData key =>
      exact iff_of_true
        ⟨fun hnew => (not_storesNew_pullData hnew).elim, h.pullData_served key⟩
        fun hnew => (not_storesNew_pullData hnew).elim
  | storeData key block =>
      rw [storesNew_storeData]
      rcases storeData_spec (q := q) hlim h.inv key block with
        ⟨s', hstore, -⟩ | ⟨hstore, hkey, hout⟩
      · have hserve : s.serve lim q (.storeData key block) = .ok (none, s') := by
          rw [serve, hstore]
          rfl
        rw [hserve]
        by_cases hkey : s.smap[key]? = none
        · obtain ⟨hroom, hslot⟩ := h.slot_of_storeData hlim hkey hstore
          have hcounter := ((counter_serve hserve).1 (storesNew_storeData.mpr hkey)).1
          simp only [hkey, true_implies, hcounter]
          exact ⟨fun hstep => ⟨hroom, hstep.2⟩, fun hroom => ⟨hslot, hroom.2⟩⟩
        · simp only [hkey, false_implies, true_and, iff_true]
          exact ((counter_serve hserve).2 (mt storesNew_storeData.mp hkey)).1 ▸ h.counter
      · have hserve : s.serve lim q (.storeData key block) = .error .noFreeRecord := by
          rw [serve, hstore]
          rfl
        rw [hserve]
        refine iff_of_false (fun hstep => hstep.2 rfl) fun hroom => ?_
        have hfull := h.outOfSlots_iff.mp hout
        rw [one_le_numToDump_iff] at hfull
        exact (hroom hkey).1.elim hfull.1 hfull.2

/-- With room the task stays as it is wanted. -/
theorem Serviceable.serve (hlim : lim.useDiskOverflow = true) (h : Serviceable lim s)
    (hroom : StoresNew r s → HasRoom lim s) (hserve : s.serve lim q r = .ok (answer, s')) :
    Serviceable lim s' where
  inv := (serve_refines hlim h.inv hserve).1
  counter := by
    by_cases hnew : StoresNew r s
    · exact ((counter_serve hserve).1 hnew).1 ▸ (hroom hnew).2
    · exact ((counter_serve hserve).2 hnew).1 ▸ h.counter
  dumps hover := by
    by_cases hnew : StoresNew r s
    · rcases ((counter_serve hserve).1 hnew).2 hover with hbefore | hfull
      · exact h.dumps hbefore
      · rw [one_le_numToDump_iff]
        exact (hroom hnew).1.resolve_left hfull
    · exact h.dumps (((counter_serve hserve).2 hnew).2 ▸ hover)

theorem Serviceable.findsSlots_iff (hlim : lim.useDiskOverflow = true) (h : Serviceable lim s)
    (reqs : List (Request Block)) : FindsSlots lim q reqs s ↔ RoomKept lim q reqs s := by
  induction reqs generalizing s with
  | nil => exact Iff.rfl
  | cons r reqs ih =>
      have hstep := h.step_iff (q := q) hlim r
      rw [FindsSlots, RoomKept, ← hstep]
      cases hserve : s.serve lim q r with
      | error e => simp
      | ok result =>
          obtain ⟨answer, s'⟩ := result
          rw [hserve] at hstep
          constructor
          · rintro ⟨hslot, hcounter, hrest⟩
            have hroom := hstep.mp ⟨hslot, hcounter⟩
            refine ⟨⟨hslot, hcounter⟩, fun answer' s'' heq => ?_⟩
            cases heq
            exact (ih (h.serve hlim hroom hserve)).mp hrest
          · rintro ⟨hnow, hrest⟩
            refine ⟨hnow.1, hnow.2, ?_⟩
            exact (ih (h.serve hlim (hstep.mp hnow) hserve)).mpr (hrest answer s' rfl)

end Slots

/-- In double arithmetic a full pool is dumped from in some cases where the exact product is
below one. -/
theorem one_le_round_ratio_iff (cfg : Settings) :
    1 ≤ cfg.limits.rounding.round (cfg.limits.dumpWatermarkRatio * cfg.limits.maxNumRecords) ↔
      1 - 2 ^ (-54 : ℤ) ≤ cfg.watermarkRatio * cfg.maxNumRecords :=
  BinaryFormat.one_le_round_iff (by decide) (by decide)
    (mul_nonneg cfg.ratio_pos.le (Nat.cast_nonneg _))

/-- **Slots.** With disk overflow on, every new record of a sequence of requests gets a
slot of the pool if and only if each comes while there is room by count, or the watermark
ratio dumps at least one record of a full pool, and the counter stays an `int`. -/
theorem never_out_of_slots_iff (cfg : Settings) (hover : cfg.useDiskOverflow = true)
    (q : DumpQueue) (data : Block) (reqs : List (Request Block)) :
    FindsSlots cfg.limits q reqs (initStorage cfg.limits data) ↔
      RoomKept cfg.limits q reqs (initStorage cfg.limits data) :=
  (serviceable_initStorage cfg.limits data).findsSlots_iff hover reqs

/-! ### The records a run has stored -/

section Keys

variable {s s' : Storage Block} {key : SparseKey}

/-- A new entry under a known key changes no keys. -/
theorem mem_insert_of_mem {t : TreeMap SparseKey Datagram} {key' : SparseKey} (h : key' ∈ t)
    (d : Datagram) : key ∈ t.insert key' d ↔ key ∈ t := by
  rw [TreeMap.mem_insert, Std.compare_eq_iff_eq]
  constructor
  · rintro (rfl | hmem)
    · exact h
    · exact hmem
  · exact Or.inr

/-- An overflow moves records and forgets none. -/
theorem mem_smap_dumpRecords {nodes : List NodePriority}
    (hnodes : ∀ node ∈ nodes, node.key ∈ s.smap) (h : dumpRecords nodes s = .ok s') :
    key ∈ s'.smap ↔ key ∈ s.smap := by
  induction nodes generalizing s with
  | nil =>
      cases h
      rfl
  | cons node nodes ih =>
      obtain ⟨s₁, hdump, hrest⟩ := exists_of_bind_eq_ok h
      obtain ⟨block, -, rfl⟩ := dumpRecord_ok hdump
      have hnode := hnodes node List.mem_cons_self
      have hrest' := ih (fun node' hmem => (mem_insert_of_mem hnode _).mpr
        (hnodes node' (List.mem_cons_of_mem _ hmem))) hrest
      exact hrest'.trans (mem_insert_of_mem hnode _)

theorem mem_smap_dumptoDisk (h : s.dumptoDisk lim q = .ok s') : key ∈ s'.smap ↔ key ∈ s.smap := by
  change dumpRecords ((q.drain s.candidates).take _) { s with overflowTriggered := true } = _ at h
  refine mem_smap_dumpRecords (s := { s with overflowTriggered := true }) (fun node hmem => ?_) h
  change node.key ∈ s.smap
  obtain ⟨e, he, hcandidate⟩ := List.mem_filterMap.mp
    ((PriorityQueue.mem_drain q).mp (List.mem_of_mem_take hmem))
  have hkey : node.key = e.1 := by
    rw [candidate, Option.ite_none_right_eq_some] at hcandidate
    rw [← Option.some.inj hcandidate.2]
  rw [hkey, TreeMap.mem_iff_isSome_getElem?, TreeMap.mem_toList_iff_getElem?_eq_some.mp he]
  rfl

theorem mem_smap_getFreeRecord {slot : ℕ} (h : s.getFreeRecord lim q = .ok (slot, s')) :
    key ∈ s'.smap ↔ key ∈ s.smap := by
  obtain ⟨-, -, -, rfl⟩ | ⟨rest, -, -, rfl⟩ | ⟨s₁, rest, -, -, hdump, -, rfl⟩ :=
    getFreeRecord_cases h
  · rfl
  · rfl
  · change key ∈ s₁.smap ↔ key ∈ s.smap
    exact mem_smap_dumptoDisk hdump

/-- A record that is found is in the map. -/
theorem mem_smap_of_getElem? {d : Datagram} (h : s.smap[key]? = some d) : key ∈ s.smap := by
  rw [TreeMap.mem_iff_isSome_getElem?, h]
  rfl

/-- A request adds the key it stores under. -/
theorem mem_smap_serve {r : Request Block} {answer : Option Block}
    (h : s.serve lim q r = .ok (answer, s')) :
    key ∈ s'.smap ↔ key ∈ s.smap ∨ r.storedKey = some key := by
  cases r with
  | storeData key' block =>
      obtain ⟨-, d, s₁, pool, fpTmp, henter, rfl⟩ := serve_storeData_ok h
      rw [Request.storedKey, Option.some.injEq]
      obtain ⟨hkey, rfl⟩ | ⟨slot, s₂, -, hget, -, rfl⟩ := enterRecord_cases henter
      · have hmem := mem_smap_of_getElem? hkey
        rw [mem_insert_of_mem hmem]
        refine ⟨Or.inl, ?_⟩
        rintro (hmem' | rfl)
        · exact hmem'
        · exact hmem
      · rw [TreeMap.mem_insert, Std.compare_eq_iff_eq, mem_smap_getFreeRecord hget, or_comm]
  | pullData key' =>
      obtain ⟨d, block, hkey, -, -, rfl⟩ := serve_pullData_ok h
      simp only [Request.storedKey, reduceCtorEq, or_false]
      exact mem_insert_of_mem (mem_smap_of_getElem? hkey) _

theorem mem_smap_run {reqs : List (Request Block)} {answers : List (Option Block)}
    (hrun : run lim q reqs s = .ok (answers, s')) :
    key ∈ s'.smap ↔ key ∈ s.smap ∨ key ∈ storedKeys reqs := by
  induction reqs generalizing s answers with
  | nil =>
      cases hrun
      simp [storedKeys]
  | cons r reqs ih =>
      obtain ⟨answer, rest, s₁, hserve, hrest, -⟩ := run_cons_ok hrun
      rw [ih hrest, mem_smap_serve hserve, or_assoc]
      refine or_congr_right ?_
      rw [storedKeys, storedKeys, List.mem_dedup, List.mem_dedup, List.mem_filterMap,
        List.mem_filterMap]
      simp

end Keys

/-- The map of a reached state knows the keys stored so far. -/
theorem mem_smap_iff {data : Block} {reqs : List (Request Block)} {answers : List (Option Block)}
    {s : Storage Block} (hrun : run lim q reqs (initStorage lim data) = .ok (answers, s))
    (key : SparseKey) : key ∈ s.smap ↔ key ∈ storedKeys reqs := by
  rw [mem_smap_run hrun]
  simp [initStorage]

theorem size_smap_eq {data : Block} {reqs : List (Request Block)}
    {answers : List (Option Block)} {s : Storage Block}
    (hrun : run lim q reqs (initStorage lim data) = .ok (answers, s)) :
    s.smap.size = (storedKeys reqs).length := by
  rw [← TreeMap.length_keys]
  apply List.Perm.length_eq
  refine (List.perm_ext_iff_of_nodup TreeMap.nodup_keys (List.nodup_dedup _)).mpr ?_
  intro key
  rw [TreeMap.mem_keys]
  exact mem_smap_iff hrun key

/-! ### Room for a bounded number of records -/

section Bounded

variable {s s' : Storage Block} {keys : List SparseKey}

theorem size_smap_le (h : ∀ key ∈ s.smap, key ∈ keys) : s.smap.size ≤ keys.length := by
  rw [← TreeMap.length_keys]
  exact (List.subperm_of_subset TreeMap.nodup_keys
    fun key hkey => h key (TreeMap.mem_keys.mp hkey)).length_le

/-- One more key than the map knows. -/
theorem size_smap_lt {key : SparseKey} (hnew : s.smap[key]? = none) (hkey : key ∈ keys)
    (h : ∀ key ∈ s.smap, key ∈ keys) : s.smap.size < keys.length := by
  have hnot : key ∉ s.smap.keys := by
    rw [TreeMap.mem_keys, TreeMap.mem_iff_isSome_getElem?, hnew]
    exact Bool.false_ne_true
  rw [← TreeMap.length_keys]
  refine (List.subperm_of_subset (List.nodup_cons.mpr ⟨hnot, TreeMap.nodup_keys⟩)
    fun key' hmem => ?_).length_le
  rcases List.mem_cons.mp hmem with rfl | hold
  · exact hkey
  · exact h key' (TreeMap.mem_keys.mp hold)

theorem counterAfter_le (lim : Limits) (s : Storage Block) :
    s.counterAfter lim ≤ s.numActiveRecords + 2 := by
  rw [counterAfter]
  split <;> omega

/-- A request counts at most two for each record that it makes known. -/
theorem counter_le_serve {r : Request Block} {answer : Option Block}
    (h : s.serve lim q r = .ok (answer, s')) (hle : s.numActiveRecords ≤ 2 * s.smap.size) :
    s'.numActiveRecords ≤ 2 * s'.smap.size := by
  have hold : ∀ key ∈ s.smap, key ∈ s'.smap.keys := fun key hkey =>
    TreeMap.mem_keys.mpr ((mem_smap_serve h).mpr (Or.inl hkey))
  have hlength : s'.smap.keys.length = s'.smap.size := TreeMap.length_keys
  by_cases hnew : StoresNew r s
  · have hcounter := ((counter_serve h).1 hnew).1
    obtain ⟨key, hstored, hkey⟩ := hnew
    have hmem := TreeMap.mem_keys.mpr ((mem_smap_serve h).mpr (Or.inr hstored))
    have hmore := size_smap_lt hkey hmem hold
    have hafter := counterAfter_le lim s
    omega
  · have hsame := size_smap_le hold
    have hcounter := ((counter_serve h).2 hnew).1
    omega

theorem roomKept_of_le
    (hratio : 1 ≤ lim.rounding.round (lim.dumpWatermarkRatio * lim.maxNumRecords))
    (hkeys : keys.length < 2 ^ 30) {reqs : List (Request Block)}
    (hreqs : ∀ r ∈ reqs, ∀ key, r.storedKey = some key → key ∈ keys)
    (hknown : ∀ key ∈ s.smap, key ∈ keys) (hle : s.numActiveRecords ≤ 2 * s.smap.size) :
    RoomKept lim q reqs s := by
  induction reqs generalizing s with
  | nil => trivial
  | cons r reqs ih =>
      refine ⟨fun hnew => ⟨Or.inr hratio, ?_⟩, fun answer s' hserve => ?_⟩
      · obtain ⟨key, hstored, hkey⟩ := hnew
        have hless := size_smap_lt hkey (hreqs r List.mem_cons_self key hstored) hknown
        have hafter := counterAfter_le lim s
        omega
      · refine ih (fun r' hr' => hreqs r' (List.mem_cons_of_mem _ hr')) (fun key hkey => ?_)
          (counter_le_serve hserve hle)
        rcases (mem_smap_serve hserve).mp hkey with hold | hstored
        · exact hknown key hold
        · exact hreqs r List.mem_cons_self key hstored

/-- A ratio that dumps something of a full pool makes room for less than `2 ^ 30` records. -/
theorem roomKept_of_storedKeys (data : Block)
    (hratio : 1 ≤ lim.rounding.round (lim.dumpWatermarkRatio * lim.maxNumRecords))
    {reqs : List (Request Block)} (hkeys : (storedKeys reqs).length < 2 ^ 30) :
    RoomKept lim q reqs (initStorage lim data) := by
  refine roomKept_of_le hratio hkeys (fun r hr key hstored => ?_) (fun key hkey => ?_) ?_
  · exact List.mem_dedup.mpr (List.mem_filterMap.mpr ⟨r, hr, hstored⟩)
  · exact absurd hkey TreeMap.not_mem_emptyc
  · exact Int.natCast_nonneg _

end Bounded

/-- A pool of two blocks, one of which an overflow dumps. -/
def smallPool : Settings where
  watermarkRatio := 1 / 2
  maxPoolsizeMBs := 1
  blocksize := 65536
  useDiskOverflow := true
  ratio_pos := by norm_num
  ratio_lt_one := by norm_num
  poolsize_pos := by norm_num
  blocksize_pos := by norm_num

/-- Half of a pool of two blocks is one record. -/
theorem smallPool_never_out_of_slots :
    smallPool.useDiskOverflow = true ∧ ∀ reqs : List (Request ℕ),
      (storedKeys reqs).length < 2 ^ 30 →
        FindsSlots smallPool.limits dumpQueue reqs (initStorage smallPool.limits 0) := by
  have hratio := (one_le_round_ratio_iff smallPool).mpr (by decide +kernel)
  exact ⟨rfl, fun reqs hkeys => (never_out_of_slots_iff smallPool rfl dumpQueue 0 reqs).mpr
    (roomKept_of_storedKeys 0 hratio hkeys)⟩

/-- A pool of one block, of which half a record is to be dumped. -/
def tinyPool : Settings where
  watermarkRatio := 1 / 2
  maxPoolsizeMBs := 1
  blocksize := 131072
  useDiskOverflow := true
  ratio_pos := by norm_num
  ratio_lt_one := by norm_num
  poolsize_pos := by norm_num
  blocksize_pos := by norm_num

/-- The second record finds the pool full and the overflow frees nothing. -/
theorem tinyPool_out_of_slots :
    run tinyPool.limits dumpQueue [.storeData (1, 0) 10, .storeData (1, 1) 11]
      (initStorage tinyPool.limits 0) = .error .noFreeRecord := by
  have htest : ∃ e, run tinyPool.limits dumpQueue [.storeData (1, 0) 10, .storeData (1, 1) 11]
      (initStorage tinyPool.limits 0) = .error e ∧ decide (e = .noFreeRecord) = true :=
    exists_error_of_any (by decide +kernel)
  obtain ⟨e, hrun, he⟩ := htest
  rw [hrun, of_decide_eq_true he]

/-! ### The counter of active records -/

/-- `num_active_records` is what its comment says, and `DumptoDisk` is entered
from `s` only if every slot holds a live record. -/
structure CounterExact (lim : Limits) (s : Storage Block) : Prop where
  count : s.numActiveRecords = s.numInMem
  le_max : s.numActiveRecords ≤ lim.maxNumRecords
  full : ¬s.numActiveRecords < lim.maxNumRecords →
    ∀ slot < lim.maxNumRecords, ∃ key, HeldBy s slot key

/-- Without an overflow the counter is exact. -/
theorem counterExact_of_not_overflow {handed drift : ℕ} {s : Storage Block}
    (inv : SlotInv lim [] handed drift s) (phase : Phase lim [] handed drift s)
    (hover : s.overflowTriggered = false) : CounterExact lim s := by
  simp only [Phase, hover, Bool.false_eq_true, if_false] at phase
  obtain ⟨hdrift, hfree, -⟩ := phase
  have hcount := inv.count
  have hlen := inv.length_eq
  have hhanded := inv.handed_le
  rw [hfree, List.length_nil, Nat.zero_add, Nat.add_zero] at hlen
  refine ⟨by rw [numInMem_eq]; omega, by omega, fun hfull slot hslot => ?_⟩
  rw [← mem_heldSlots_iff]
  have hmem := inv.slots.mem_iff.mpr (List.mem_range.mpr (show slot < handed by omega))
  simpa [hfree] using hmem

/-- **The counter.** In every state a run reaches, `num_active_records` counts
the records in memory, and `DumptoDisk` is next entered only on a full pool, if
and only if the run has stored at most `max_num_records` different records. -/
theorem counterExact_iff (hlim : lim.useDiskOverflow = true) (data : Block)
    (reqs : List (Request Block)) (answers : List (Option Block)) (s : Storage Block)
    (hrun : run lim q reqs (initStorage lim data) = .ok (answers, s)) :
    CounterExact lim s ↔ (storedKeys reqs).length ≤ lim.maxNumRecords := by
  obtain ⟨⟨handed, drift, inv, phase⟩, -, -⟩ := reached_spec hlim hrun
  rw [← size_smap_eq hrun, size_smap]
  constructor
  · intro exact
    have hcount := exact.count
    rw [numInMem_eq, inv.count] at hcount
    -- an exact counter rules out any overflow before
    by_cases hover : s.overflowTriggered = true
    · rw [Phase, if_pos hover] at phase
      omega
    · rw [Phase, if_neg hover] at phase
      have hlen := inv.length_eq
      have hhanded := inv.handed_le
      have hdisk := inv.length_diskSlots
      omega
  · intro hle
    refine counterExact_of_not_overflow inv phase ?_
    rw [Bool.eq_false_iff]
    intro hover
    rw [Phase, if_pos hover, List.length_nil] at phase
    have hdisk := inv.length_diskSlots
    omega

/-- Two records fit, and the counter is right. -/
theorem counterExact_two_records :
    ∃ answers s, run smallPool.limits dumpQueue [.storeData (1, 0) 10, .storeData (1, 1) 11]
        (initStorage smallPool.limits 0) = .ok (answers, s) ∧ CounterExact smallPool.limits s := by
  have hany : ∃ result, run smallPool.limits dumpQueue
      [.storeData (1, 0) 10, .storeData (1, 1) 11] (initStorage smallPool.limits 0) =
        .ok result ∧ true = true :=
    exists_ok_of_any (p := fun _ => true) (by decide +kernel)
  obtain ⟨⟨answers, s⟩, hrun, -⟩ := hany
  refine ⟨answers, s, hrun, (counterExact_iff rfl 0 _ answers s hrun).mpr ?_⟩
  decide +kernel

/-- The third record overflows: two records are in memory, and the counter says
three. -/
theorem counter_wrong_after_overflow :
    ∃ answers s, run smallPool.limits dumpQueue
        [.storeData (1, 0) 10, .storeData (1, 1) 11, .storeData (1, 2) 12]
        (initStorage smallPool.limits 0) = .ok (answers, s) ∧
      s.numActiveRecords = 3 ∧ s.numInMem = 2 ∧ smallPool.maxNumRecords = 2 := by
  have hany : ∃ result, run smallPool.limits dumpQueue
      [.storeData (1, 0) 10, .storeData (1, 1) 11, .storeData (1, 2) 12]
      (initStorage smallPool.limits 0) = .ok result ∧
        decide (result.2.numActiveRecords = 3 ∧ result.2.numInMem = 2) = true :=
    exists_ok_of_any (by decide +kernel)
  obtain ⟨⟨answers, s⟩, hrun, hcount⟩ := hany
  obtain ⟨hthree, htwo⟩ := of_decide_eq_true hcount
  exact ⟨answers, s, hrun, hthree, htwo, by decide +kernel⟩

end Storage

end Grvy.Ocore
