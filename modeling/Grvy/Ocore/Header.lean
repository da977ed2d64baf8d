import Grvy.Ocore.Refinement

/-!
The request header and what becomes of a record index in it.

A worker writes the index, a `size_t`, into an `int` of the header, and the
polling task builds a `size_t` from it again. The first conversion keeps the
low 32 bits, the second extends their sign. An index survives both if and only
if it is below 2^31 or among the last 2^31 values of `size_t`; any other index
is taken for one of these by the polling task, while the worker goes on
telling them apart.
-/

namespace Grvy.Ocore

open Std (TreeMap)

/-- `OCORE_MSG_TYPES` -/
inductive MsgType
  | writeNew
  | updateOld
  | read
  | exit
  deriving DecidableEq, Repr

/-- The header buffer. Its fourth entry, the message size, is written by every
sender and read by no receiver. -/
structure Header where
  /-- `hbuf[0]` -/
  msgType : MsgType
  /-- `hbuf[1]`: message destination -/
  destination : ℕ
  /-- `hbuf[2]`: storage offset (sparse index) -/
  offset : BitVec 32
  deriving DecidableEq

/-- `hbuf[2] = offset` -/
def headerOffset (index : SizeT) : BitVec 32 := index.setWidth 32

/-- `SparseKey key (sendingRank,hbuf[2])` -/
def headerKey (sendingRank : ℕ) (offset : BitVec 32) : SparseKey :=
  (sendingRank, offset.signExtend 64)

/-- The header that asks `task` for the record with a given index. -/
def requestHeader (msgType : MsgType) (task : ℕ) (index : SizeT) : Header :=
  { msgType := msgType, destination := task, offset := headerOffset index }

/-! ### Indices that survive -/

/-- The indices in the range of `int`, and those that are negative as
`ptrdiff_t` in that range. -/
def Carried (index : SizeT) : Prop :=
  index.toNat < 2 ^ 31 ∨ 2 ^ 64 - 2 ^ 31 ≤ index.toNat

instance (index : SizeT) : Decidable (Carried index) := inferInstanceAs (Decidable (_ ∨ _))

theorem signExtend_headerOffset_iff (index : SizeT) :
    (headerOffset index).signExtend 64 = index ↔ Carried index := by
  have hlt := index.isLt
  rw [← BitVec.toInt_inj, BitVec.toInt_signExtend_of_le (by omega), headerOffset,
    BitVec.toInt_eq_toNat_cond, BitVec.toInt_eq_toNat_cond, BitVec.toNat_setWidth, Carried]
  split <;> split <;> omega

/-- Two indices that survive are told apart by the header. -/
theorem headerOffset_injective {i j : SizeT} (hi : Carried i) (hj : Carried j)
    (h : headerOffset i = headerOffset j) : i = j := by
  rw [← (signExtend_headerOffset_iff i).mpr hi, h, (signExtend_headerOffset_iff j).mpr hj]

theorem signExtend_injective {o o' : BitVec 32} (h : o.signExtend 64 = o'.signExtend 64) :
    o = o' := by
  apply BitVec.eq_of_toInt_eq
  have hint := congrArg BitVec.toInt h
  rwa [BitVec.toInt_signExtend_of_le (by omega), BitVec.toInt_signExtend_of_le (by omega)] at hint

/-- The polling task tells apart what the header tells apart. -/
theorem headerKey_inj {w w' : ℕ} {o o' : BitVec 32} :
    headerKey w o = headerKey w' o' ↔ w = w' ∧ o = o' := by
  rw [headerKey, headerKey, Prod.mk.injEq]
  refine and_congr_right fun _ => ⟨signExtend_injective, fun h => by rw [h]⟩

/-! ### What the keys of two indices mean for the storage -/

variable {Block : Type} {lim : Limits} {q : DumpQueue}

/-- A write under another key leaves what a pull sends as it was. -/
theorem pullData_after_storeData (hlim : lim.useDiskOverflow = true) {s s' s₁ : Storage Block}
    {key key' : SparseKey} {block sent : Block} (hinv : Storage.Inv lim s) (hne : key ≠ key')
    (hstore : s.storeData lim q key' block = .ok s') (hpull : s.pullData key = .ok (sent, s₁)) :
    ∃ s₂, s'.pullData key = .ok (sent, s₂) := by
  rcases Storage.storeData_spec (q := q) hlim hinv key' block with
    ⟨s₃, hstore₃, stored⟩ | ⟨herror, -⟩
  · obtain rfl : s₃ = s' := Except.ok.inj (hstore₃.symm.trans hstore)
    cases hkey : s.smap[key]? with
    | none =>
        rw [Storage.pullData_of_none hkey] at hpull
        cases hpull
    | some d =>
        obtain ⟨sent', s₄, hpull', pulled⟩ := Storage.pullData_spec hinv hkey
        rw [hpull] at hpull'
        cases hpull'
        have hcontents : s₃.contents key = some sent := by
          rw [stored.contents, Function.update_of_ne hne]
          exact pulled.sent
        obtain ⟨d', hkey'⟩ := Storage.exists_of_contents hcontents
        obtain ⟨sent'', s₂, hpull'', pulled''⟩ := Storage.pullData_spec stored.inv hkey'
        obtain rfl : sent = sent'' := Option.some.inj (hcontents.symm.trans pulled''.sent)
        exact ⟨s₂, hpull''⟩
  · rw [hstore] at herror
    cases herror

/-- The keys that a polling task builds for two indices of a worker have these
as index parts, so they differ if the indices do, and then no write of the one
record changes what is sent for the other. -/
structure Faithful (Block : Type) (worker : ℕ) (i j : SizeT) : Prop where
  left : (headerKey worker (headerOffset i)).2 = i
  right : (headerKey worker (headerOffset j)).2 = j
  distinct : i ≠ j → headerKey worker (headerOffset i) ≠ headerKey worker (headerOffset j)
  separate : i ≠ j → ∀ (lim : Limits) (q : DumpQueue) (data : Block) (reqs : List (Request Block))
    (answers : List (Option Block)) (s s' s₁ : Storage Block) (block sent : Block),
    lim.useDiskOverflow = true → Storage.run lim q reqs (initStorage lim data) = .ok (answers, s) →
    s.storeData lim q (headerKey worker (headerOffset j)) block = .ok s' →
    s.pullData (headerKey worker (headerOffset i)) = .ok (sent, s₁) →
    ∃ s₂, s'.pullData (headerKey worker (headerOffset i)) = .ok (sent, s₂)

/-- **The header.** Requests for two indices are told apart by the polling task as
their worker tells them apart if and only if both indices survive the way
through the header. -/
theorem faithful_iff (Block : Type) (worker : ℕ) (i j : SizeT) :
    Faithful Block worker i j ↔ Carried i ∧ Carried j := by
  constructor
  · intro h
    exact ⟨(signExtend_headerOffset_iff i).mp h.left, (signExtend_headerOffset_iff j).mp h.right⟩
  · rintro ⟨hi, hj⟩
    have hne : i ≠ j → headerKey worker (headerOffset i) ≠ headerKey worker (headerOffset j) :=
      fun hij h => hij (headerOffset_injective hi hj (headerKey_inj.mp h).2)
    refine ⟨(signExtend_headerOffset_iff i).mpr hi, (signExtend_headerOffset_iff j).mpr hj, hne, ?_⟩
    intro hij lim q data reqs answers s s' s₁ block sent hlim hrun hstore hpull
    exact pullData_after_storeData hlim (Storage.reached_spec hlim hrun).1 (hne hij) hstore hpull

/-- Index 2^32 has the key of index 0: once worker 0 has written both, the task
sends the second block for the first index. -/
theorem write_overwrites_other_index :
    headerKey 0 (headerOffset (BitVec.ofNat 64 (2 ^ 32))) = headerKey 0 (headerOffset 0) ∧
      ∃ s, Storage.run twoSlots dumpQueue
        [.storeData (headerKey 0 (headerOffset 0)) 10,
          .storeData (headerKey 0 (headerOffset (BitVec.ofNat 64 (2 ^ 32)))) 20,
          .pullData (headerKey 0 (headerOffset 0))]
        (initStorage twoSlots 0) = .ok ([none, none, some 20], s) := by
  refine ⟨by decide +kernel, ?_⟩
  have hany : ∃ result, Storage.run twoSlots dumpQueue
      [.storeData (headerKey 0 (headerOffset 0)) 10,
        .storeData (headerKey 0 (headerOffset (BitVec.ofNat 64 (2 ^ 32)))) 20,
        .pullData (headerKey 0 (headerOffset 0))]
      (initStorage twoSlots 0) = .ok result ∧
        decide (result.1 = [none, none, some 20]) = true :=
    Lib.exists_ok_of_any (by decide +kernel)
  obtain ⟨⟨answers, s⟩, hrun, hanswers⟩ := hany
  obtain rfl : answers = [none, none, some 20] := of_decide_eq_true hanswers
  exact ⟨s, hrun⟩

end Grvy.Ocore
