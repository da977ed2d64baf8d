import Grvy.Lib.TreeMapCensus
import Grvy.Ocore.Storage

/-!
The invariant of an Ocore task's storage.

The counter `num_active_records` is both the number of the next slot to hand
out and the signal that the pool is full, but after an overflow it no longer
counts anything: `GetFreeRecord` and `StoreData` both increment it for the
same record. What holds instead is that it exceeds the number of occupied
slots by a *drift* that every overflow increases by one, and that from the
first overflow on every slot of the pool has been handed out. So an empty free
stack means a full pool, a full pool with a positive drift means a counter
beyond `max_num_records`, and the branch that returns the counter itself as a
slot number is never taken again.
-/

namespace Grvy.Ocore.Storage

open Std (TreeMap)
open Grvy.Lib

variable {Block : Type} {lim : Limits} {q : DumpQueue}

/-! ### Slots in use -/

/-- The pool slot a record occupies. -/
def heldSlot (_ : SparseKey) (d : Datagram) : Option ℕ :=
  if d.inMem then some d.index else none

/-- The disk slot a record occupies. -/
def diskSlot (_ : SparseKey) (d : Datagram) : Option ℕ :=
  if d.inMem then none else some d.index

/-- The pool slots of the records in memory, one entry for each record. -/
def heldSlots (s : Storage Block) : List ℕ := census heldSlot s.smap

/-- The disk slots of the records on disk, one entry for each record. -/
def diskSlots (s : Storage Block) : List ℕ := census diskSlot s.smap

/-- How many slots have been handed out: each of them is held or free. -/
def handedOut (s : Storage Block) : ℕ := (heldSlots s ++ s.freeRecords).length

@[simp] theorem heldSlot_of_inMem {d : Datagram} (key : SparseKey) (h : d.inMem = true) :
    heldSlot key d = some d.index := by
  simp [heldSlot, h]

@[simp] theorem heldSlot_of_onDisk {d : Datagram} (key : SparseKey) (h : d.inMem = false) :
    heldSlot key d = none := by
  simp [heldSlot, h]

@[simp] theorem diskSlot_of_inMem {d : Datagram} (key : SparseKey) (h : d.inMem = true) :
    diskSlot key d = none := by
  simp [diskSlot, h]

@[simp] theorem diskSlot_of_onDisk {d : Datagram} (key : SparseKey) (h : d.inMem = false) :
    diskSlot key d = some d.index := by
  simp [diskSlot, h]

theorem mem_heldSlots {s : Storage Block} {slot : ℕ} :
    slot ∈ heldSlots s ↔
      ∃ (key : SparseKey) (d : Datagram),
        s.smap[key]? = some d ∧ d.inMem = true ∧ d.index = slot := by
  rw [heldSlots, mem_census]
  refine exists_congr fun key => exists_congr fun d => and_congr_right fun _ => ?_
  cases hd : d.inMem <;> simp [heldSlot, hd]

theorem mem_diskSlots {s : Storage Block} {slot : ℕ} :
    slot ∈ diskSlots s ↔
      ∃ (key : SparseKey) (d : Datagram),
        s.smap[key]? = some d ∧ d.inMem = false ∧ d.index = slot := by
  rw [diskSlots, mem_census]
  refine exists_congr fun key => exists_congr fun d => and_congr_right fun _ => ?_
  cases hd : d.inMem <;> simp [diskSlot, hd]

/-- The block a key denotes, wherever its record lives. -/
def contents (s : Storage Block) (key : SparseKey) : Option Block :=
  match s.smap[key]? with
  | none => none
  | some d => if d.inMem then s.pool[d.index]? else s.fpTmp d.index

theorem contents_of_none {s : Storage Block} {key : SparseKey} (h : s.smap[key]? = none) :
    s.contents key = none := by
  simp [contents, h]

theorem contents_of_inMem {s : Storage Block} {key : SparseKey} {d : Datagram}
    (h : s.smap[key]? = some d) (hd : d.inMem = true) :
    s.contents key = s.pool[d.index]? := by
  simp [contents, h, hd]

theorem contents_of_onDisk {s : Storage Block} {key : SparseKey} {d : Datagram}
    (h : s.smap[key]? = some d) (hd : d.inMem = false) :
    s.contents key = s.fpTmp d.index := by
  simp [contents, h, hd]

/-- A key denotes the same block when its record is the same and so is what lies there. -/
theorem contents_congr {s s' : Storage Block} {key : SparseKey}
    (hsmap : s'.smap[key]? = s.smap[key]?)
    (hpool : ∀ d, s.smap[key]? = some d → d.inMem = true →
      s'.pool[d.index]? = s.pool[d.index]?)
    (hfile : ∀ d, s.smap[key]? = some d → d.inMem = false →
      s'.fpTmp d.index = s.fpTmp d.index) :
    s'.contents key = s.contents key := by
  cases hkey : s.smap[key]? with
  | none => rw [contents_of_none hkey, contents_of_none (hsmap.trans hkey)]
  | some d =>
      cases hd : d.inMem with
      | true =>
          rw [contents_of_inMem hkey hd, contents_of_inMem (hsmap.trans hkey) hd]
          exact hpool d hkey hd
      | false =>
          rw [contents_of_onDisk hkey hd, contents_of_onDisk (hsmap.trans hkey) hd]
          exact hfile d hkey hd

/-! ### The invariant -/

/-- The slots `0, …, handed - 1` have been handed out, and each of them is in
transit to a new record, held by one record in memory, or on the free stack.
Every disk slot below `num_active_disk_records` belongs to one record on disk
and has been written. -/
structure SlotInv (lim : Limits) (transit : List ℕ) (handed drift : ℕ)
    (s : Storage Block) : Prop where
  pool_length : s.pool.length = lim.maxNumRecords
  handed_le : handed ≤ lim.maxNumRecords
  slots : (transit ++ (heldSlots s ++ s.freeRecords)).Perm (List.range handed)
  disk : (diskSlots s).Perm (List.range s.numActiveDiskRecords)
  file : ∀ i < s.numActiveDiskRecords, ∃ block, s.fpTmp i = some block
  count : s.numActiveRecords = (heldSlots s).length + drift

/-- Before the first overflow the counter is exact, nothing has been returned
to the free stack and nothing is on disk. From then on the counter is too
large, every slot has been handed out, and there are more records than slots. -/
def Phase (lim : Limits) (transit : List ℕ) (handed drift : ℕ) (s : Storage Block) : Prop :=
  if s.overflowTriggered then
    handed = lim.maxNumRecords ∧ 0 < drift ∧
      lim.maxNumRecords < transit.length + (heldSlots s).length + s.numActiveDiskRecords
  else
    drift = 0 ∧ s.freeRecords = [] ∧ s.numActiveDiskRecords = 0

/-- The invariant between two requests. -/
def Inv (lim : Limits) (s : Storage Block) : Prop :=
  ∃ handed drift, SlotInv lim [] handed drift s ∧ Phase lim [] handed drift s

theorem inv_initStorage (lim : Limits) (data : Block) : Inv lim (initStorage lim data) := by
  refine ⟨0, 0, ⟨by simp [initStorage], Nat.zero_le _, ?_, ?_, ?_, ?_⟩, ?_⟩
  · exact List.Perm.refl _
  · exact List.Perm.refl _
  · intro i hi
    exact absurd hi (Nat.not_lt_zero i)
  · rfl
  · exact ⟨rfl, rfl, rfl⟩

namespace SlotInv

variable {transit : List ℕ} {handed drift : ℕ} {s : Storage Block}

theorem nodup (inv : SlotInv lim transit handed drift s) :
    (transit ++ (heldSlots s ++ s.freeRecords)).Nodup :=
  inv.slots.nodup_iff.mpr List.nodup_range

theorem heldSlots_nodup (inv : SlotInv lim transit handed drift s) : (heldSlots s).Nodup :=
  (List.nodup_append.mp (List.nodup_append.mp inv.nodup).2.1).1

theorem diskSlots_nodup (inv : SlotInv lim transit handed drift s) : (diskSlots s).Nodup :=
  inv.disk.nodup_iff.mpr List.nodup_range

theorem lt_handed (inv : SlotInv lim transit handed drift s) {slot : ℕ}
    (h : slot ∈ transit ++ (heldSlots s ++ s.freeRecords)) : slot < handed :=
  List.mem_range.mp (inv.slots.mem_iff.mp h)

theorem held_lt (inv : SlotInv lim transit handed drift s) {key : SparseKey} {d : Datagram}
    (hkey : s.smap[key]? = some d) (hd : d.inMem = true) : d.index < s.pool.length := by
  have hmem : d.index ∈ heldSlots s := mem_heldSlots.mpr ⟨key, d, hkey, hd, rfl⟩
  have hlt : d.index < handed := inv.lt_handed (by simp [hmem])
  rw [inv.pool_length]
  exact lt_of_lt_of_le hlt inv.handed_le

theorem disk_lt (inv : SlotInv lim transit handed drift s) {key : SparseKey} {d : Datagram}
    (hkey : s.smap[key]? = some d) (hd : d.inMem = false) :
    d.index < s.numActiveDiskRecords := by
  have hmem : d.index ∈ diskSlots s := mem_diskSlots.mpr ⟨key, d, hkey, hd, rfl⟩
  exact List.mem_range.mp (inv.disk.mem_iff.mp hmem)

/-- No two records in memory share a slot. -/
theorem held_inj (inv : SlotInv lim transit handed drift s) {key key' : SparseKey}
    {d d' : Datagram} (hkey : s.smap[key]? = some d) (hkey' : s.smap[key']? = some d')
    (hd : d.inMem = true) (hd' : d'.inMem = true) (h : d.index = d'.index) : key = key' :=
  key_eq_of_census_nodup inv.heldSlots_nodup hkey hkey' (heldSlot_of_inMem key hd)
    (by rw [heldSlot_of_inMem key' hd', h])

/-- No two records on disk share a slot. -/
theorem disk_inj (inv : SlotInv lim transit handed drift s) {key key' : SparseKey}
    {d d' : Datagram} (hkey : s.smap[key]? = some d) (hkey' : s.smap[key']? = some d')
    (hd : d.inMem = false) (hd' : d'.inMem = false) (h : d.index = d'.index) : key = key' :=
  key_eq_of_census_nodup inv.diskSlots_nodup hkey hkey' (diskSlot_of_onDisk key hd)
    (by rw [diskSlot_of_onDisk key' hd', h])

/-- Every record the map knows has a block. -/
theorem contents_isSome (inv : SlotInv lim transit handed drift s) {key : SparseKey}
    {d : Datagram} (hkey : s.smap[key]? = some d) : ∃ block, s.contents key = some block := by
  cases hd : d.inMem with
  | true =>
      rw [contents_of_inMem hkey hd]
      exact ⟨_, List.getElem?_eq_getElem (inv.held_lt hkey hd)⟩
  | false =>
      rw [contents_of_onDisk hkey hd]
      exact inv.file _ (inv.disk_lt hkey hd)

/-- Slots held, in transit and free add up to the slots handed out. -/
theorem length_eq (inv : SlotInv lim transit handed drift s) :
    transit.length + ((heldSlots s).length + s.freeRecords.length) = handed := by
  have hlen := inv.slots.length_eq
  simpa using hlen

theorem length_diskSlots (inv : SlotInv lim transit handed drift s) :
    (diskSlots s).length = s.numActiveDiskRecords := by
  rw [inv.disk.length_eq, List.length_range]

theorem handedOut_eq (inv : SlotInv lim [] handed drift s) : s.handedOut = handed := by
  have hlen := inv.slots.length_eq
  rwa [List.nil_append, List.length_range] at hlen

/-- The top of the free stack is put in transit. -/
theorem slots_of_free (inv : SlotInv lim [] handed drift s) {slot : ℕ} {rest : List ℕ}
    (hfree : s.freeRecords = slot :: rest) :
    ([slot] ++ (heldSlots s ++ rest)).Perm (List.range handed) := by
  have hslots := inv.slots
  rw [List.nil_append, hfree] at hslots
  change (slot :: (heldSlots s ++ rest)).Perm (List.range handed)
  exact List.perm_middle.symm.trans hslots

end SlotInv

/-! ### One turn of the dump loop -/

/-- The record behind a queue entry is in memory, at the slot the entry
names. -/
def Resident (s : Storage Block) (node : NodePriority) : Prop :=
  ∃ d, s.smap[node.key]? = some d ∧ d.inMem = true ∧ d.index = node.ocoreIndex

/-- What one turn of the dump loop leaves as it was. -/
structure DumpFrame (s s' : Storage Block) : Prop where
  contents : s'.contents = s.contents
  keys : ∀ key : SparseKey, s'.smap[key]? = none ↔ s.smap[key]? = none
  pool : s'.pool = s.pool
  overflow : s'.overflowTriggered = s.overflowTriggered

theorem DumpFrame.refl (s : Storage Block) : DumpFrame s s :=
  ⟨rfl, fun _ => Iff.rfl, rfl, rfl⟩

theorem DumpFrame.trans {s₁ s₂ s₃ : Storage Block} (h₁₂ : DumpFrame s₁ s₂)
    (h₂₃ : DumpFrame s₂ s₃) : DumpFrame s₁ s₃ where
  contents := h₂₃.contents.trans h₁₂.contents
  keys key := (h₂₃.keys key).trans (h₁₂.keys key)
  pool := h₂₃.pool.trans h₁₂.pool
  overflow := h₂₃.overflow.trans h₁₂.overflow

theorem Resident.getD_eq {s : Storage Block} {node : NodePriority} {d : Datagram}
    (h : s.smap[node.key]? = some d) : s.smap.getD node.key default = d := by
  rw [TreeMap.getD_eq_getD_getElem?, h]
  rfl

theorem moveToDisk_smap {s : Storage Block} {node : NodePriority} {d : Datagram} (block : Block)
    (h : s.smap[node.key]? = some d) :
    (s.moveToDisk node block).smap =
      s.smap.insert node.key { d with inMem := false, index := s.numActiveDiskRecords } := by
  rw [moveToDisk, Resident.getD_eq h]

theorem moveToDisk_smap_of_ne {s : Storage Block} {node : NodePriority} (block : Block)
    {key : SparseKey} (h : key ≠ node.key) :
    (s.moveToDisk node block).smap[key]? = s.smap[key]? :=
  getElem?_insert_of_ne h

/-- The evicted slot leaves the slots held. -/
theorem moveToDisk_heldSlots {s : Storage Block} {node : NodePriority} (block : Block)
    (h : Resident s node) :
    (heldSlots s).Perm (node.ocoreIndex :: heldSlots (s.moveToDisk node block)) := by
  obtain ⟨d, hkey, hd, hindex⟩ := h
  have hold := census_perm_of_getElem? heldSlot hkey
  have hnew := census_insert_perm heldSlot s.smap node.key
    { d with inMem := false, index := s.numActiveDiskRecords }
  rw [heldSlot_of_inMem _ hd, hindex] at hold
  rw [heldSlot_of_onDisk _ rfl, ← moveToDisk_smap block hkey] at hnew
  exact hold.trans (List.Perm.cons _ hnew.symm)

/-- The record takes the next disk slot. -/
theorem moveToDisk_diskSlots {s : Storage Block} {node : NodePriority} (block : Block)
    (h : Resident s node) :
    (diskSlots (s.moveToDisk node block)).Perm (s.numActiveDiskRecords :: diskSlots s) := by
  obtain ⟨d, hkey, hd, -⟩ := h
  have hold := census_perm_of_getElem? diskSlot hkey
  have hnew := census_insert_perm diskSlot s.smap node.key
    { d with inMem := false, index := s.numActiveDiskRecords }
  rw [diskSlot_of_inMem _ hd] at hold
  rw [diskSlot_of_onDisk _ rfl, ← moveToDisk_smap block hkey] at hnew
  exact hnew.trans (List.Perm.cons _ hold.symm)

theorem SlotInv.moveToDisk {transit : List ℕ} {handed drift : ℕ} {s : Storage Block}
    {node : NodePriority} {block : Block} (inv : SlotInv lim transit handed drift s)
    (h : Resident s node) : SlotInv lim transit handed drift (s.moveToDisk node block) where
  pool_length := inv.pool_length
  handed_le := inv.handed_le
  slots := by
    refine (List.Perm.append_left transit ?_).trans inv.slots
    have hmove := moveToDisk_heldSlots block h
    exact List.perm_middle.trans (List.Perm.append_right s.freeRecords hmove.symm)
  disk := by
    refine (moveToDisk_diskSlots block h).trans ((List.Perm.cons _ inv.disk).trans ?_)
    change (s.numActiveDiskRecords :: List.range s.numActiveDiskRecords).Perm
      (List.range (s.numActiveDiskRecords + 1))
    rw [List.range_succ]
    exact (List.perm_append_singleton _ _).symm
  file i hi := by
    change ∃ b, Function.update s.fpTmp s.numActiveDiskRecords (some block) i = some b
    by_cases h : i = s.numActiveDiskRecords
    · exact ⟨block, by rw [h, Function.update_self]⟩
    · have hi' : i < s.numActiveDiskRecords + 1 := hi
      rw [Function.update_of_ne h]
      exact inv.file i (by omega)
  count := by
    have hlen := (moveToDisk_heldSlots block h).length_eq
    have hcount := inv.count
    change s.numActiveRecords - 1 = _
    rw [List.length_cons] at hlen
    omega

theorem DumpFrame.moveToDisk {transit : List ℕ} {handed drift : ℕ} {s : Storage Block}
    {node : NodePriority} {block : Block} (inv : SlotInv lim transit handed drift s)
    (h : Resident s node) (hblock : s.pool[node.ocoreIndex]? = some block) :
    DumpFrame s (s.moveToDisk node block) := by
  obtain ⟨d, hkey, hd, hindex⟩ := h
  have hself : (s.moveToDisk node block).smap[node.key]? =
      some { d with inMem := false, index := s.numActiveDiskRecords } := by
    rw [moveToDisk_smap block hkey]
    exact TreeMap.getElem?_insert_self
  refine ⟨?_, ?_, rfl, rfl⟩
  · funext key
    by_cases hk : key = node.key
    · subst hk
      rw [contents_of_onDisk hself rfl, contents_of_inMem hkey hd, hindex, hblock]
      exact Function.update_self ..
    · refine contents_congr (moveToDisk_smap_of_ne block hk) (fun _ _ _ => rfl) ?_
      intro e he hmem
      exact Function.update_of_ne (Nat.ne_of_lt (inv.disk_lt he hmem)) _ _
  · intro key
    by_cases hk : key = node.key
    · subst hk
      simp [hself, hkey]
    · rw [moveToDisk_smap_of_ne block hk]

/-- The dump loop runs to its end, keeps the invariant and what every key
denotes, and pushes the slots of its victims in the order it meets them. -/
theorem dumpRecords_spec {transit : List ℕ} {handed drift : ℕ} {nodes : List NodePriority}
    {s : Storage Block} (inv : SlotInv lim transit handed drift s)
    (hnodes : ∀ node ∈ nodes, Resident s node) (hkeys : (nodes.map NodePriority.key).Nodup) :
    ∃ s', dumpRecords nodes s = .ok s' ∧ SlotInv lim transit handed drift s' ∧ DumpFrame s s' ∧
      s'.freeRecords = (nodes.map NodePriority.ocoreIndex).reverse ++ s.freeRecords ∧
      s'.numActiveDiskRecords = s.numActiveDiskRecords + nodes.length := by
  induction nodes generalizing s with
  | nil => exact ⟨s, rfl, inv, DumpFrame.refl s, by simp, by simp⟩
  | cons node nodes ih =>
      have hnode : Resident s node := hnodes node List.mem_cons_self
      have hlt : node.ocoreIndex < s.pool.length := by
        obtain ⟨d, hkey, hd, hindex⟩ := hnode
        exact hindex ▸ inv.held_lt hkey hd
      have hblock := List.getElem?_eq_getElem hlt
      rw [List.map_cons, List.nodup_cons] at hkeys
      have hrest : ∀ n ∈ nodes, Resident (s.moveToDisk node s.pool[node.ocoreIndex]) n := by
        intro n hn
        obtain ⟨d, hkey, hd⟩ := hnodes n (List.mem_cons_of_mem _ hn)
        have hne : n.key ≠ node.key := fun h => hkeys.1 (h ▸ List.mem_map_of_mem hn)
        exact ⟨d, (moveToDisk_smap_of_ne _ hne).trans hkey, hd⟩
      obtain ⟨s', hrun, hinv, hframe, hfree, hdisk⟩ := ih (inv.moveToDisk hnode) hrest hkeys.2
      refine ⟨s', ?_, hinv, (DumpFrame.moveToDisk inv hnode hblock).trans hframe, ?_, ?_⟩
      · rw [dumpRecords, dumpRecord, hblock]
        exact hrun
      · rw [hfree]
        simp [Storage.moveToDisk]
      · rw [hdisk, List.length_cons]
        change s.numActiveDiskRecords + 1 + nodes.length = _
        omega

end Grvy.Ocore.Storage
