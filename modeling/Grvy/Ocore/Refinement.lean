import Grvy.Ocore.StorageSpec

/-!
The storage of an Ocore task refines a finite map from sparse keys to blocks.

The abstract model forgets slots, files, counters and overflows: a store
request binds its key and a read request answers with what the key is bound
to. The abstraction function is `Storage.contents`, and the simulation is
exact: a request that the storage serves without a failed assertion is
answered as the map answers it.
-/

namespace Grvy.Ocore

open Std (TreeMap)
open Grvy.Lib

variable {Block : Type} {lim : Limits} {q : DumpQueue}

/-! ### The abstract model -/

/-- What an Ocore task is for: a map from sparse keys to blocks. -/
abbrev BlockMap (Block : Type) := SparseKey → Option Block

namespace BlockMap

def serve (r : Request Block) (m : BlockMap Block) : Option Block × BlockMap Block :=
  match r with
  | .storeData key block => (none, Function.update m key (some block))
  | .pullData key => (m key, m)

def run : List (Request Block) → BlockMap Block → List (Option Block) × BlockMap Block
  | [], m => ([], m)
  | r :: rs, m =>
      let (answer, m') := serve r m
      let (answers, m'') := run rs m'
      (answer :: answers, m'')

end BlockMap

/-- The block a request stores under `key`, if it stores one. -/
def Request.storedAt (key : SparseKey) : Request Block → Option Block
  | .storeData key' block => if key' = key then some block else none
  | .pullData _ => none

/-- The block of the most recent `StoreData(key)`. -/
def lastStored (key : SparseKey) (reqs : List (Request Block)) : Option Block :=
  reqs.reverse.findSome? (Request.storedAt key)

@[simp] theorem lastStored_nil (key : SparseKey) :
    lastStored key ([] : List (Request Block)) = none := rfl

@[simp] theorem lastStored_cons (key : SparseKey) (r : Request Block) (rs : List (Request Block)) :
    lastStored key (r :: rs) = (lastStored key rs).or (r.storedAt key) := by
  rw [lastStored, List.reverse_cons, List.findSome?_append]
  cases h : r.storedAt key <;> simp [lastStored, h]

theorem BlockMap.run_apply (rs : List (Request Block)) (m : BlockMap Block) (key : SparseKey) :
    (BlockMap.run rs m).2 key = (lastStored key rs).or (m key) := by
  induction rs generalizing m with
  | nil => rfl
  | cons r rs ih =>
      rw [lastStored_cons, Option.or_assoc]
      change (BlockMap.run rs (BlockMap.serve r m).2).2 key = _
      rw [ih]
      congr 1
      cases r with
      | storeData key' block =>
          by_cases hk : key = key'
          · subst hk
            simp [BlockMap.serve, Request.storedAt]
          · simp [BlockMap.serve, Request.storedAt, Function.update_of_ne hk, Ne.symm hk]
      | pullData key' => simp [BlockMap.serve, Request.storedAt]

/-- A map that starts out empty binds each key to the block last stored. -/
@[simp] theorem BlockMap.run_empty (rs : List (Request Block)) (key : SparseKey) :
    (BlockMap.run rs fun _ => none).2 key = lastStored key rs := by
  rw [BlockMap.run_apply, Option.or_none]

/-! ### Runs of the storage -/

namespace Storage

theorem run_cons_ok {r : Request Block} {rs : List (Request Block)} {s s' : Storage Block}
    {answers : List (Option Block)} (h : run lim q (r :: rs) s = .ok (answers, s')) :
    ∃ answer rest s₁, s.serve lim q r = .ok (answer, s₁) ∧
      run lim q rs s₁ = .ok (rest, s') ∧ answers = answer :: rest := by
  rw [run] at h
  obtain ⟨⟨answer, s₁⟩, hserve, htail⟩ := exists_of_bind_eq_ok h
  obtain ⟨⟨rest, s₂⟩, hrun, hresult⟩ := exists_of_bind_eq_ok htail
  cases hresult
  exact ⟨answer, rest, s₁, hserve, hrun, rfl⟩

/-- What a served request leaves behind, and its answer. -/
inductive Served (lim : Limits) (q : DumpQueue) (s : Storage Block) :
    Request Block → Option Block → Storage Block → Prop
  | stored {key : SparseKey} {block : Block} {s' : Storage Block}
      (h : Stored lim q s key block s') : Served lim q s (.storeData key block) none s'
  | pulled {key : SparseKey} {block : Block} {s' : Storage Block}
      (h : Pulled lim s key block s') : Served lim q s (.pullData key) (some block) s'

theorem serve_served (hlim : lim.useDiskOverflow = true) {r : Request Block}
    {s s' : Storage Block} {answer : Option Block} (hinv : Inv lim s)
    (h : s.serve lim q r = .ok (answer, s')) : Served lim q s r answer s' := by
  cases r with
  | storeData key block =>
      obtain ⟨s₁, hstore, stored⟩ | ⟨hstore, -⟩ := storeData_spec (q := q) hlim hinv key block
      · rw [serve, hstore] at h
        cases h
        exact .stored stored
      · rw [serve, hstore] at h
        cases h
  | pullData key =>
      obtain ⟨d, -, hkey, -⟩ := serve_pullData_ok h
      obtain ⟨block, s₁, hpull, pulled⟩ := pullData_spec hinv hkey
      rw [serve, hpull] at h
      cases h
      exact .pulled pulled

/-- The simulation step: a request the storage serves is served by the map its
contents form, with the same answer. -/
theorem serve_refines (hlim : lim.useDiskOverflow = true) {r : Request Block}
    {s s' : Storage Block} {answer : Option Block} (hinv : Inv lim s)
    (h : s.serve lim q r = .ok (answer, s')) :
    Inv lim s' ∧ BlockMap.serve r s.contents = (answer, s'.contents) := by
  cases serve_served hlim hinv h with
  | stored stored => exact ⟨stored.inv, by rw [BlockMap.serve, stored.contents]⟩
  | pulled pulled => exact ⟨pulled.inv, by rw [BlockMap.serve, pulled.sent, pulled.contents]⟩

theorem run_refines (hlim : lim.useDiskOverflow = true) {rs : List (Request Block)}
    {s s' : Storage Block} {answers : List (Option Block)} (hinv : Inv lim s)
    (h : run lim q rs s = .ok (answers, s')) :
    Inv lim s' ∧ BlockMap.run rs s.contents = (answers, s'.contents) := by
  induction rs generalizing s answers with
  | nil =>
      cases h
      exact ⟨hinv, rfl⟩
  | cons r rs ih =>
      obtain ⟨answer, rest, s₁, hserve, hrun, rfl⟩ := run_cons_ok h
      obtain ⟨hinv₁, hstep⟩ := serve_refines hlim hinv hserve
      obtain ⟨hinv', htail⟩ := ih hinv₁ hrun
      exact ⟨hinv', by simp only [BlockMap.run, hstep, htail]⟩

@[simp] theorem contents_initStorage (lim : Limits) (data : Block) :
    (initStorage lim data).contents = fun _ => none := by
  funext key
  exact contents_of_none TreeMap.getElem?_emptyc

/-- A run that fails no assertion ends in a state that satisfies the invariant
and whose contents are the blocks last stored. -/
theorem reached_spec (hlim : lim.useDiskOverflow = true) {data : Block}
    {reqs : List (Request Block)} {answers : List (Option Block)} {s : Storage Block}
    (hrun : run lim q reqs (initStorage lim data) = .ok (answers, s)) :
    Inv lim s ∧ answers = (BlockMap.run reqs fun _ => none).1 ∧
      ∀ key, s.contents key = lastStored key reqs := by
  obtain ⟨hinv, hmap⟩ := run_refines hlim (inv_initStorage lim data) hrun
  rw [contents_initStorage] at hmap
  refine ⟨hinv, by rw [hmap], fun key => ?_⟩
  rw [← BlockMap.run_empty, hmap]

theorem exists_of_contents {s : Storage Block} {key : SparseKey} {block : Block}
    (h : s.contents key = some block) : ∃ d, s.smap[key]? = some d := by
  cases hkey : s.smap[key]? with
  | none =>
      rw [contents_of_none hkey] at h
      cases h
  | some d => exact ⟨d, rfl⟩

/-- **Refinement.** In every run that fails no assertion the storage answers
each request as a finite map would, and a `PullData` of a key stored earlier
then sends the block of its most recent `StoreData`. -/
theorem storage_refines_map (hlim : lim.useDiskOverflow = true) (data : Block)
    (reqs : List (Request Block)) (answers : List (Option Block)) (s : Storage Block)
    (hrun : run lim q reqs (initStorage lim data) = .ok (answers, s)) :
    answers = (BlockMap.run reqs fun _ => none).1 ∧
      ∀ key block, lastStored key reqs = some block →
        ∃ s', s.pullData key = .ok (block, s') := by
  obtain ⟨hinv, hanswers, hcontents⟩ := reached_spec hlim hrun
  refine ⟨hanswers, fun key block hlast => ?_⟩
  rw [← hcontents] at hlast
  obtain ⟨d, hkey⟩ := exists_of_contents hlast
  obtain ⟨block', s', hpull, pulled⟩ := pullData_spec hinv hkey
  have hblock := pulled.sent
  rw [hlast, Option.some.injEq] at hblock
  exact ⟨s', by rw [hpull, hblock]⟩

/-- Two slots and three records: the third write overflows, and the record it
evicts is updated on disk before it is read back. -/
theorem storage_refines_map_overflow :
    ∃ answers s s', run twoSlots dumpQueue
        [.storeData (1, 0) 10, .storeData (1, 1) 11, .storeData (1, 2) 12, .storeData (1, 0) 20]
        (initStorage twoSlots 0) = .ok (answers, s) ∧
      s.overflowTriggered = true ∧ s.pullData (1, 0) = .ok (20, s') := by
  have hany : ∃ result, run twoSlots dumpQueue
      [.storeData (1, 0) 10, .storeData (1, 1) 11, .storeData (1, 2) 12, .storeData (1, 0) 20]
      (initStorage twoSlots 0) = .ok result ∧ result.2.overflowTriggered = true :=
    exists_ok_of_any (by decide +kernel)
  obtain ⟨⟨answers, s⟩, hrun, hover⟩ := hany
  obtain ⟨s', hpull⟩ := (storage_refines_map rfl 0 _ answers s hrun).2 (1, 0) 20 (by decide)
  exact ⟨answers, s, s', hrun, hover, hpull⟩

end Storage

end Grvy.Ocore
