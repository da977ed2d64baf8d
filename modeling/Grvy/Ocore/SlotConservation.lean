import Grvy.Ocore.Refinement

/-!
Slot conservation: at every point between two requests each slot of the pool is
held by one record, waits once on the free stack, or has never been handed
out.

Which slots have been handed out is a fact about the past of the task, so it is
read off the requests: `allotments` collects what `GetFreeRecord` returned
along a run. The invariant identifies these slots with the ones below
`handedOut`.
-/

namespace Grvy.Ocore.Storage

open Std (TreeMap)
open Grvy.Lib

variable {Block : Type} {lim : Limits} {q : DumpQueue}

/-! ### Slots handed out along a run -/

/-- The slots `GetFreeRecord` returns while one request is served. -/
def allottedBy (lim : Limits) (q : DumpQueue) (r : Request Block) (s : Storage Block) : List ℕ :=
  match r with
  | .storeData key _ => allotted lim q key s
  | .pullData _ => []

/-- The slots `GetFreeRecord` returns along a run, in order. -/
def allotments (lim : Limits) (q : DumpQueue) : List (Request Block) → Storage Block → List ℕ
  | [], _ => []
  | r :: rs, s =>
      allottedBy lim q r s ++
        match s.serve lim q r with
        | .ok (_, s') => allotments lim q rs s'
        | .error _ => []

theorem serve_handed (hlim : lim.useDiskOverflow = true) {r : Request Block}
    {s s' : Storage Block} {answer : Option Block} (hinv : Inv lim s)
    (h : s.serve lim q r = .ok (answer, s')) (slot : ℕ) :
    slot < s'.handedOut ↔ slot < s.handedOut ∨ slot ∈ allottedBy lim q r s := by
  cases serve_served hlim hinv h with
  | stored stored => exact stored.handed slot
  | pulled pulled =>
      rw [pulled.handed]
      simp [allottedBy]

theorem run_handed (hlim : lim.useDiskOverflow = true) {rs : List (Request Block)}
    {s s' : Storage Block} {answers : List (Option Block)} (hinv : Inv lim s)
    (h : run lim q rs s = .ok (answers, s')) (slot : ℕ) :
    slot < s'.handedOut ↔ slot < s.handedOut ∨ slot ∈ allotments lim q rs s := by
  induction rs generalizing s answers with
  | nil =>
      cases h
      simp [allotments]
  | cons r rs ih =>
      obtain ⟨answer, rest, s₁, hserve, hrun, -⟩ := run_cons_ok h
      rw [ih (serve_refines hlim hinv hserve).1 hrun, serve_handed hlim hinv hserve]
      simp only [allotments, hserve, List.mem_append, or_assoc]

/-- In a reached state the slots handed out are the ones below `handedOut`. -/
theorem mem_allotments (hlim : lim.useDiskOverflow = true) {data : Block}
    {reqs : List (Request Block)} {answers : List (Option Block)} {s : Storage Block}
    (hrun : run lim q reqs (initStorage lim data) = .ok (answers, s)) (slot : ℕ) :
    slot ∈ allotments lim q reqs (initStorage lim data) ↔ slot < s.handedOut := by
  have hzero : (initStorage lim data).handedOut = 0 := rfl
  rw [run_handed hlim (inv_initStorage lim data) hrun, hzero]
  simp

/-! ### The three classes of slots -/

/-- The record under `key` is in memory and occupies `slot`. -/
def HeldBy (s : Storage Block) (slot : ℕ) (key : SparseKey) : Prop :=
  ∃ d, s.smap[key]? = some d ∧ d.inMem = true ∧ d.index = slot

theorem mem_heldSlots_iff {s : Storage Block} {slot : ℕ} :
    slot ∈ heldSlots s ↔ ∃ key, HeldBy s slot key :=
  mem_heldSlots

/-- Each slot below `max_num_records` is in one of three classes, which exclude
one another. -/
structure SlotsConserved (lim : Limits) (handed : ℕ → Prop) (s : Storage Block) : Prop where
  partition : ∀ slot < lim.maxNumRecords,
    ((∃! key, HeldBy s slot key) ∧ s.freeRecords.count slot = 0 ∧ handed slot) ∨
    ((¬∃ key, HeldBy s slot key) ∧ s.freeRecords.count slot = 1 ∧ handed slot) ∨
    ((¬∃ key, HeldBy s slot key) ∧ s.freeRecords.count slot = 0 ∧ ¬handed slot)
  in_range : ∀ slot, (∃ key, HeldBy s slot key) ∨ slot ∈ s.freeRecords ∨ handed slot →
    slot < lim.maxNumRecords
  disk_lt : ∀ (key : SparseKey) (d : Datagram), s.smap[key]? = some d → d.inMem = false →
    d.index < s.numActiveDiskRecords
  disk_distinct : ∀ (key key' : SparseKey) (d d' : Datagram), s.smap[key]? = some d →
    s.smap[key']? = some d' → d.inMem = false → d'.inMem = false → d.index = d'.index → key = key'

theorem SlotInv.conserved {handed drift : ℕ} {s : Storage Block}
    (inv : SlotInv lim [] handed drift s) : SlotsConserved lim (· < handed) s where
  partition slot _ := by
    have hnodup := inv.nodup
    rw [List.nil_append, List.nodup_append] at hnodup
    obtain ⟨-, hfree, hdisjoint⟩ := hnodup
    have hused : slot ∈ heldSlots s ∨ slot ∈ s.freeRecords ↔ slot < handed := by
      rw [← List.mem_append, ← List.mem_range]
      exact inv.slots.mem_iff
    by_cases hheld : slot ∈ heldSlots s
    · left
      refine ⟨?_, ?_, hused.mp (Or.inl hheld)⟩
      · obtain ⟨key, d, hkey, hd, hindex⟩ := mem_heldSlots.mp hheld
        refine ⟨key, ⟨d, hkey, hd, hindex⟩, ?_⟩
        rintro key' ⟨d', hkey', hd', hindex'⟩
        exact inv.held_inj hkey' hkey hd' hd (hindex'.trans hindex.symm)
      · rw [List.count_eq_zero]
        exact fun hmem => hdisjoint slot hheld slot hmem rfl
    · right
      rw [← mem_heldSlots_iff]
      by_cases hmem : slot ∈ s.freeRecords
      · left
        exact ⟨hheld, List.count_eq_one_of_mem hfree hmem, hused.mp (Or.inr hmem)⟩
      · right
        refine ⟨hheld, List.count_eq_zero.mpr hmem, fun hlt => ?_⟩
        rcases hused.mpr hlt with h | h
        · exact hheld h
        · exact hmem h
  in_range slot hslot := by
    apply lt_of_lt_of_le _ inv.handed_le
    rcases hslot with hheld | hfree | hhanded
    · rw [← mem_heldSlots_iff] at hheld
      exact inv.lt_handed (by simp [hheld])
    · exact inv.lt_handed (by simp [hfree])
    · exact hhanded
  disk_lt _ _ hkey hd := inv.disk_lt hkey hd
  disk_distinct _ _ _ _ hkey hkey' hd hd' hindex := inv.disk_inj hkey hkey' hd hd' hindex

/-- The slot `GetFreeRecord` returns is not occupied, whichever of its return
paths it takes. -/
theorem Allotted.not_held {s s' : Storage Block} {slot : ℕ} (h : Allotted lim s slot s') :
    (¬∃ key, HeldBy s' slot key) ∧ slot < lim.maxNumRecords := by
  obtain ⟨drift, inv, -⟩ := h.inv
  have hnodup := inv.nodup
  rw [List.singleton_append, List.nodup_cons] at hnodup
  constructor
  · rw [← mem_heldSlots_iff]
    exact fun hheld => hnodup.1 (List.mem_append_left _ hheld)
  · exact lt_of_lt_of_le (inv.lt_handed (by simp)) inv.handed_le

/-- **Slot conservation.** In every state a run reaches, the slots of the pool
are partitioned into those held by one record, those on the free stack and
those never handed out; the records on disk have disk slots of their own; and
`GetFreeRecord` returns no slot that a record occupies. -/
theorem slots_conserved (hlim : lim.useDiskOverflow = true) (data : Block)
    (reqs : List (Request Block)) (answers : List (Option Block)) (s : Storage Block)
    (hrun : run lim q reqs (initStorage lim data) = .ok (answers, s)) :
    SlotsConserved lim (· ∈ allotments lim q reqs (initStorage lim data)) s ∧
      ∀ slot s', s.getFreeRecord lim q = .ok (slot, s') →
        (¬∃ key, HeldBy s' slot key) ∧ slot < lim.maxNumRecords := by
  have hinv := (reached_spec hlim hrun).1
  constructor
  · obtain ⟨handed, drift, inv, -⟩ := hinv
    have hmem : (fun slot => slot ∈ allotments lim q reqs (initStorage lim data)) =
        fun slot => slot < handed := by
      funext slot
      rw [mem_allotments hlim hrun, inv.handedOut_eq]
    rw [hmem]
    exact inv.conserved
  · intro slot s' hget
    rcases getFreeRecord_spec (q := q) hlim hinv with ⟨slot₁, s₁, hget₁, hallot⟩ | ⟨hget₁, -⟩
    · rw [hget] at hget₁
      cases hget₁
      exact hallot.not_held
    · rw [hget] at hget₁
      cases hget₁

/-- Two slots and three records: one record is on disk, and each slot is
held. -/
theorem slots_conserved_overflow :
    ∃ answers s, run twoSlots dumpQueue
        [.storeData (1, 0) 10, .storeData (1, 1) 11, .storeData (1, 2) 12]
        (initStorage twoSlots 0) = .ok (answers, s) ∧
      s.numActiveDiskRecords = 1 ∧
      SlotsConserved twoSlots (· ∈ allotments twoSlots dumpQueue
        [.storeData (1, 0) 10, .storeData (1, 1) 11, .storeData (1, 2) 12]
        (initStorage twoSlots 0)) s := by
  have hany : ∃ result, run twoSlots dumpQueue
      [.storeData (1, 0) 10, .storeData (1, 1) 11, .storeData (1, 2) 12]
      (initStorage twoSlots 0) = .ok result ∧
        decide (result.2.numActiveDiskRecords = 1) = true :=
    exists_ok_of_any (by decide +kernel)
  obtain ⟨⟨answers, s⟩, hrun, hdisk⟩ := hany
  exact ⟨answers, s, hrun, of_decide_eq_true hdisk, (slots_conserved rfl 0 _ answers s hrun).1⟩

end Grvy.Ocore.Storage
