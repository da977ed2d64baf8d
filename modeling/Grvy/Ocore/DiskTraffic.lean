import Grvy.Ocore.Refinement

/-!
What an Ocore task writes to its overflow file, and reads from it.

Each block that has been stored is in memory, or has been overwritten there, or has gone to the
file once: a record on disk never comes back. So one block at least has not gone there.
-/

namespace Grvy.Ocore

open Std (TreeMap)
open Grvy.Lib

variable {Block : Type}

def Request.isStore : Request Block → Bool
  | .storeData _ _ => true
  | .pullData _ => false

namespace Storage

variable {lim : Limits} {q : DumpQueue}

/-! ### Transactions -/

/-- How often `write_to_disk` is timed for a new record. -/
def dumpCount (lim : Limits) (q : DumpQueue) (s : Storage Block) : ℕ :=
  if s.numActiveRecords < lim.maxNumRecords then 0
  else if lim.useDiskOverflow then (s.victims lim q).length
  else 0

/-- How often `write_to_disk` is timed for a request. -/
def diskWrites (lim : Limits) (q : DumpQueue) (r : Request Block) (s : Storage Block) : ℕ :=
  match r with
  | .storeData key _ =>
      match s.smap[key]? with
      | none => s.dumpCount lim q
      | some d => if d.inMem then 0 else 1
  | .pullData _ => 0

/-- How often `read_from_disk` is timed for a request. -/
def diskReads (r : Request Block) (s : Storage Block) : ℕ :=
  match r with
  | .storeData _ _ => 0
  | .pullData key =>
      match s.smap[key]? with
      | none => 0
      | some d => if d.inMem then 0 else 1

/-- The blocks in memory that are written over. -/
def overwrites (r : Request Block) (s : Storage Block) : ℕ :=
  match r with
  | .storeData key _ =>
      match s.smap[key]? with
      | none => 0
      | some d => if d.inMem then 1 else 0
  | .pullData _ => 0

/-- The blocks that are sent from memory. -/
def poolReads (r : Request Block) (s : Storage Block) : ℕ :=
  match r with
  | .storeData _ _ => 0
  | .pullData key =>
      match s.smap[key]? with
      | none => 0
      | some d => if d.inMem then 1 else 0

/-- The sum of a count along a run. -/
def countAlong (lim : Limits) (q : DumpQueue) (count : Request Block → Storage Block → ℕ) :
    List (Request Block) → Storage Block → ℕ
  | [], _ => 0
  | r :: rs, s =>
      count r s +
        match s.serve lim q r with
        | .ok (_, s') => countAlong lim q count rs s'
        | .error _ => 0

section Along

variable {count count' : Request Block → Storage Block → ℕ} {rs : List (Request Block)}
  {r : Request Block} {s s' : Storage Block} {answer : Option Block}
  {answers : List (Option Block)}

theorem countAlong_cons (h : s.serve lim q r = .ok (answer, s')) :
    countAlong lim q count (r :: rs) s = count r s + countAlong lim q count rs s' := by
  rw [countAlong, h]

theorem countAlong_add (rs : List (Request Block)) (s : Storage Block) :
    countAlong lim q (fun r s => count r s + count' r s) rs s =
      countAlong lim q count rs s + countAlong lim q count' rs s := by
  induction rs generalizing s with
  | nil => rfl
  | cons r rs ih =>
      rw [countAlong, countAlong, countAlong]
      cases s.serve lim q r with
      | error e => simp
      | ok result =>
          simp only [ih]
          omega

/-- What holds of each request adds up along a run. -/
theorem countAlong_conserved (hlim : lim.useDiskOverflow = true) (kept : Storage Block → ℕ)
    {p : Request Block → Bool}
    (hstep : ∀ r (s s' : Storage Block) answer, Inv lim s →
      s.serve lim q r = .ok (answer, s') →
        count r s + kept s' = kept s + if p r then 1 else 0)
    (hinv : Inv lim s) (h : run lim q rs s = .ok (answers, s')) :
    countAlong lim q count rs s + kept s' = kept s + rs.countP p := by
  induction rs generalizing s answers with
  | nil =>
      cases h
      simp [countAlong]
  | cons r rs ih =>
      obtain ⟨answer, rest, s₁, hserve, hrun, -⟩ := run_cons_ok h
      have hone := hstep r s s₁ answer hinv hserve
      have hrest := ih (serve_refines hlim hinv hserve).1 hrun
      rw [countAlong_cons hserve, List.countP_cons]
      omega

end Along

/-! ### Where the blocks are -/

section Served

variable {r : Request Block} {rs : List (Request Block)} {s s' : Storage Block}
  {answer : Option Block} {answers : List (Option Block)}

/-- A new slot takes as many records out of memory as are dumped. -/
theorem getFreeRecord_dumps {slot : ℕ} (hinv : Inv lim s)
    (h : s.getFreeRecord lim q = .ok (slot, s')) :
    (heldSlots s').length + s.dumpCount lim q = (heldSlots s).length ∧
      ∀ key : SparseKey, s'.smap[key]? = none ↔ s.smap[key]? = none := by
  obtain ⟨hroom, -, -, rfl⟩ | ⟨rest, hroom, -, rfl⟩ |
    ⟨s₁, rest, hroom, hlim, hdump, hfree, rfl⟩ := getFreeRecord_cases h
  · rw [dumpCount, if_pos hroom]
    exact ⟨rfl, fun _ => Iff.rfl⟩
  · rw [dumpCount, if_pos hroom]
    exact ⟨rfl, fun _ => Iff.rfl⟩
  · obtain ⟨handed, drift, inv, -⟩ := hinv
    obtain ⟨s₂, hdump', inv₂, hframe, hfree₂, -⟩ := dumptoDisk_spec (q := q) inv
    rw [hdump] at hdump'
    cases hdump'
    rw [dumpCount, if_neg hroom, if_pos hlim]
    refine ⟨?_, hframe.keys⟩
    have hbefore := inv.length_eq
    have hafter := inv₂.length_eq
    rw [hfree₂, List.length_append, List.length_reverse, List.length_map] at hafter
    change (heldSlots s₁).length + _ = _
    omega

/-- New counts of a record leave it where it is. -/
theorem length_heldSlots_touch {key : SparseKey} {d : Datagram} (hkey : s.smap[key]? = some d)
    (readCount writeCount : ℕ) :
    (census heldSlot (s.smap.insert key
      { d with readCount := readCount, writeCount := writeCount })).length =
        (heldSlots s).length := by
  have hperm : (census heldSlot (s.smap.insert key
      { d with readCount := readCount, writeCount := writeCount })).Perm (heldSlots s) :=
    census_insert_of_eq heldSlot hkey rfl
  exact hperm.length_eq

/-- A store adds a block to those in memory, replaces one there, or writes to disk. -/
theorem serve_storeData_held (hinv : Inv lim s) {key : SparseKey} {block : Block}
    (h : s.serve lim q (.storeData key block) = .ok (answer, s')) :
    diskWrites lim q (.storeData key block) s + overwrites (.storeData key block) s +
      (heldSlots s').length = (heldSlots s).length + 1 := by
  obtain ⟨-, d, s₁, pool, fpTmp, henter, rfl⟩ := serve_storeData_ok h
  change _ + (heldSlots s₁).length = _
  obtain ⟨hkey, rfl⟩ | ⟨slot, s₂, hkey, hget, rfl, rfl⟩ := enterRecord_cases henter
  · change _ + (census heldSlot (s.smap.insert key _)).length = _
    rw [length_heldSlots_touch hkey, diskWrites, overwrites]
    simp only [hkey]
    cases d.inMem <;> simp <;> omega
  · obtain ⟨hheld, hkeys⟩ := getFreeRecord_dumps hinv hget
    have hmore : (census heldSlot (s₂.smap.insert key
        { inMem := true, index := slot, readCount := 0, writeCount := 1 })).length =
          (heldSlots s₂).length + 1 :=
      (census_insert_of_getElem?_eq_none heldSlot _ ((hkeys key).mpr hkey)).length_eq.trans
        (by simp [heldSlots, heldSlot, Nat.add_comm])
    change _ + (census heldSlot (s₂.smap.insert key _)).length = _
    rw [hmore, diskWrites, overwrites]
    simp only [hkey]
    omega

theorem serve_pullData_held {key : SparseKey}
    (h : s.serve lim q (.pullData key) = .ok (answer, s')) :
    (heldSlots s').length = (heldSlots s).length := by
  obtain ⟨d, block, hkey, -, -, rfl⟩ := serve_pullData_ok h
  exact length_heldSlots_touch hkey (d.readCount + 1) d.writeCount

/-- **Where the blocks are.** Every block that has been stored is in memory, or has been
overwritten there, or has gone to disk, and it is counted once. -/
theorem stores_accounted (hlim : lim.useDiskOverflow = true) (hinv : Inv lim s)
    (h : run lim q rs s = .ok (answers, s')) :
    countAlong lim q (diskWrites lim q) rs s + countAlong lim q overwrites rs s +
        (heldSlots s').length =
      (heldSlots s).length + rs.countP Request.isStore := by
  rw [← countAlong_add]
  refine countAlong_conserved hlim (fun s => (heldSlots s).length)
    (fun r s s' answer hinv hserve => ?_) hinv h
  cases r with
  | storeData key block => exact serve_storeData_held hinv hserve
  | pullData key => exact (Nat.zero_add _).trans (serve_pullData_held hserve)

/-- Every block that has been sent comes from memory or from disk. -/
theorem pulls_accounted (hlim : lim.useDiskOverflow = true) (hinv : Inv lim s)
    (h : run lim q rs s = .ok (answers, s')) :
    countAlong lim q diskReads rs s + countAlong lim q poolReads rs s =
      rs.countP fun r => !r.isStore := by
  rw [← countAlong_add]
  have hzero : ∀ n m : ℕ, n + 0 = 0 + m → n = m := fun n m hnm => by omega
  refine hzero _ _ (countAlong_conserved hlim (fun _ => 0) (fun r s s' answer _ hserve => ?_)
    hinv h)
  cases r with
  | storeData key block => rfl
  | pullData key =>
      obtain ⟨d, block, hkey, -, -, -⟩ := serve_pullData_ok hserve
      simp only [diskReads, poolReads, hkey]
      cases d.inMem <;> rfl

/-- If there is a record, one is in memory. -/
def KeepsOne (s : Storage Block) : Prop :=
  ∀ (key : SparseKey) (d : Datagram), s.smap[key]? = some d → 0 < (heldSlots s).length

/-- A request that is served leaves a record in memory: the new one, or one that was there. -/
theorem KeepsOne.serve (hkeeps : KeepsOne s) (h : s.serve lim q r = .ok (answer, s')) :
    0 < (heldSlots s').length := by
  cases r with
  | storeData key block =>
      obtain ⟨-, d, s₁, pool, fpTmp, henter, rfl⟩ := serve_storeData_ok h
      change 0 < (heldSlots s₁).length
      obtain ⟨hkey, rfl⟩ | ⟨slot, s₂, hkey, hget, rfl, rfl⟩ := enterRecord_cases henter
      · exact (length_heldSlots_touch hkey _ _).symm ▸ hkeeps key d hkey
      · exact List.length_pos_of_mem
          (mem_heldSlots.mpr ⟨key, _, TreeMap.getElem?_insert_self, rfl, rfl⟩)
  | pullData key =>
      obtain ⟨d, block, hkey, -, -, rfl⟩ := serve_pullData_ok h
      exact (length_heldSlots_touch hkey _ _).symm ▸ hkeeps key d hkey

theorem KeepsOne.run (hkeeps : KeepsOne s) (h : run lim q rs s = .ok (answers, s'))
    (hne : rs ≠ []) : 0 < (heldSlots s').length := by
  induction rs generalizing s answers with
  | nil => exact absurd rfl hne
  | cons r rs ih =>
      obtain ⟨answer, rest, s₁, hserve, hrun, -⟩ := run_cons_ok h
      have hone := hkeeps.serve hserve
      by_cases hrs : rs = []
      · subst hrs
        cases hrun
        exact hone
      · exact ih (fun _ _ _ => hone) hrun hrs

/-- Not all blocks that have been stored go to disk. -/
theorem diskWrites_lt (hlim : lim.useDiskOverflow = true) {data : Block}
    (h : run lim q rs (initStorage lim data) = .ok (answers, s'))
    (hstore : 0 < rs.countP Request.isStore) :
    countAlong lim q (diskWrites lim q) rs (initStorage lim data) < rs.countP Request.isStore := by
  have hall := stores_accounted hlim (inv_initStorage lim data) h
  have hne : rs ≠ [] := by
    rintro rfl
    exact absurd hstore (lt_irrefl 0)
  have hkeeps : KeepsOne (initStorage lim data) := by
    intro key d hkey
    rw [initStorage, TreeMap.getElem?_emptyc] at hkey
    cases hkey
  have hheld := hkeeps.run h hne
  have hzero : (heldSlots (initStorage lim data)).length = 0 := rfl
  omega

/-! ### Without a write to disk -/

/-- A slot that takes no record to disk is found without an overflow. -/
theorem getFreeRecord_quiet {slot : ℕ} (hinv : Inv lim s) (hover : s.overflowTriggered = false)
    (h : s.getFreeRecord lim q = .ok (slot, s')) (hzero : s.dumpCount lim q = 0) :
    s'.overflowTriggered = false := by
  obtain ⟨-, -, -, rfl⟩ | ⟨rest, -, -, rfl⟩ | ⟨s₁, rest, hroom, hlim, hdump, hfree, rfl⟩ :=
    getFreeRecord_cases h
  · exact hover
  · exact hover
  · obtain ⟨handed, drift, inv, phase⟩ := hinv
    obtain ⟨s₂, hdump', -, -, hfree₂, -⟩ := dumptoDisk_spec (q := q) inv
    rw [hdump] at hdump'
    cases hdump'
    rw [dumpCount, if_neg hroom, if_pos hlim, List.length_eq_zero_iff] at hzero
    simp only [Phase, hover, Bool.false_eq_true, if_false] at phase
    rw [hfree, hzero, phase.2.1] at hfree₂
    cases hfree₂

theorem serve_quiet (hinv : Inv lim s) (hover : s.overflowTriggered = false)
    (h : s.serve lim q r = .ok (answer, s')) (hzero : diskWrites lim q r s = 0) :
    s'.overflowTriggered = false := by
  cases r with
  | storeData key block =>
      obtain ⟨-, d, s₁, pool, fpTmp, henter, rfl⟩ := serve_storeData_ok h
      obtain ⟨-, rfl⟩ | ⟨slot, s₂, hkey, hget, -, rfl⟩ := enterRecord_cases henter
      · exact hover
      · simp only [diskWrites, hkey] at hzero
        have hquiet : s₂.overflowTriggered = false := getFreeRecord_quiet hinv hover hget hzero
        exact hquiet
  | pullData key =>
      obtain ⟨d, block, -, -, -, rfl⟩ := serve_pullData_ok h
      exact hover

/-- An overflow writes to disk. -/
theorem run_quiet (hlim : lim.useDiskOverflow = true) (hinv : Inv lim s)
    (hover : s.overflowTriggered = false) (h : run lim q rs s = .ok (answers, s'))
    (hzero : countAlong lim q (diskWrites lim q) rs s = 0) : s'.overflowTriggered = false := by
  induction rs generalizing s answers with
  | nil =>
      cases h
      exact hover
  | cons r rs ih =>
      obtain ⟨answer, rest, s₁, hserve, hrun, -⟩ := run_cons_ok h
      rw [countAlong_cons hserve, Nat.add_eq_zero_iff] at hzero
      have hquiet := serve_quiet hinv hover hserve hzero.1
      exact ih (serve_refines hlim hinv hserve).1 hquiet hrun hzero.2

/-- Before an overflow nothing goes to disk or comes from it. -/
theorem serve_still (hinv : Inv lim s) (h : s.serve lim q r = .ok (answer, s'))
    (hover : s'.overflowTriggered = false) :
    s.overflowTriggered = false ∧ diskWrites lim q r s = 0 ∧ diskReads r s = 0 := by
  have hmem : s.overflowTriggered = false → ∀ (key : SparseKey) (d : Datagram),
      s.smap[key]? = some d → d.inMem = true := by
    intro hover key d hkey
    obtain ⟨handed, drift, inv, phase⟩ := hinv
    simp only [Phase, hover, Bool.false_eq_true, if_false] at phase
    by_contra hd
    have hlt := inv.disk_lt hkey ((Bool.not_eq_true _).mp hd)
    omega
  cases r with
  | storeData key block =>
      obtain ⟨-, d, s₁, pool, fpTmp, henter, rfl⟩ := serve_storeData_ok h
      obtain ⟨hkey, rfl⟩ | ⟨slot, s₂, hkey, hget, -, rfl⟩ := enterRecord_cases henter
      · have hbefore : s.overflowTriggered = false := hover
        refine ⟨hbefore, ?_, rfl⟩
        simp only [diskWrites, hkey, hmem hbefore key d hkey, if_true]
      · have hbefore : s₂.overflowTriggered = false := hover
        simp only [diskWrites, diskReads, hkey, and_true]
        obtain ⟨hroom, -, -, rfl⟩ | ⟨rest, hroom, -, rfl⟩ | ⟨s₃, rest, -, -, hdump, -, rfl⟩ :=
          getFreeRecord_cases hget
        · exact ⟨hbefore, if_pos hroom⟩
        · exact ⟨hbefore, if_pos hroom⟩
        · obtain ⟨handed, drift, inv, -⟩ := hinv
          obtain ⟨s₄, hdump', -, hframe, -, -⟩ := dumptoDisk_spec (q := q) inv
          rw [hdump] at hdump'
          cases hdump'
          have htriggered : s₃.overflowTriggered = true := hframe.overflow
          exact absurd (htriggered.symm.trans hbefore) (by decide)
  | pullData key =>
      obtain ⟨d, block, hkey, -, -, rfl⟩ := serve_pullData_ok h
      have hbefore : s.overflowTriggered = false := hover
      refine ⟨hbefore, rfl, ?_⟩
      simp only [diskReads, hkey, hmem hbefore key d hkey, if_true]

theorem run_still (hlim : lim.useDiskOverflow = true) (hinv : Inv lim s)
    (h : run lim q rs s = .ok (answers, s')) (hover : s'.overflowTriggered = false) :
    s.overflowTriggered = false ∧ countAlong lim q (diskWrites lim q) rs s = 0 ∧
      countAlong lim q diskReads rs s = 0 := by
  induction rs generalizing s answers with
  | nil =>
      cases h
      exact ⟨hover, rfl, rfl⟩
  | cons r rs ih =>
      obtain ⟨answer, rest, s₁, hserve, hrun, -⟩ := run_cons_ok h
      obtain ⟨hover₁, hwrites, hreads⟩ := ih (serve_refines hlim hinv hserve).1 hrun
      obtain ⟨hbefore, hwrite, hread⟩ := serve_still hinv hserve hover₁
      rw [countAlong_cons hserve, countAlong_cons hserve]
      exact ⟨hbefore, by omega, by omega⟩

/-- Without a write to disk the counter is the number of the records, and they fit. -/
theorem numActiveRecords_of_quiet (hinv : Inv lim s) (hover : s.overflowTriggered = false) :
    s.numActiveRecords = s.smap.size ∧ s.smap.size ≤ lim.maxNumRecords := by
  obtain ⟨handed, drift, inv, phase⟩ := hinv
  simp only [Phase, hover, Bool.false_eq_true, if_false] at phase
  have hsize := size_smap s
  have hdisk := inv.length_diskSlots
  have hlen := inv.length_eq
  have hcount := inv.count
  have hhanded := inv.handed_le
  rw [List.length_nil, Nat.zero_add] at hlen
  omega

/-- From the first overflow on there are records on disk. -/
theorem overflowTriggered_eq_false_iff (hinv : Inv lim s) :
    s.overflowTriggered = false ↔ s.numActiveDiskRecords = 0 := by
  obtain ⟨handed, drift, inv, phase⟩ := hinv
  have hlen := inv.length_eq
  have hhanded := inv.handed_le
  cases hover : s.overflowTriggered with
  | false =>
      simp only [Phase, hover, Bool.false_eq_true, if_false] at phase
      exact iff_of_true rfl phase.2.2
  | true =>
      simp only [Phase, hover, if_true] at phase
      refine iff_of_false (by decide) ?_
      omega

end Served

end Storage

end Grvy.Ocore
