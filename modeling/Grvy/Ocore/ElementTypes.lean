import Grvy.Ocore.Header

/-!
The element types that `Write` and `Read` are instantiated for.

A worker sends its block as `blocksize` elements of the type it calls with, and
an Ocore task receives and sends it as `blocksize` doubles; in between nobody
looks at the bytes. `Write` asserts that an element has the word size, which is
8, so that `float` and `int` stop there. A block of `long long` elements has
the bytes of a block of doubles, but its messages are received as another type
than they are sent as. Whether MPI lets that pass is up to the library.
-/

namespace Grvy.Ocore

open Std (TreeMap)

/-! ### Types -/

/-- The types of the template instantiations. -/
inductive ElementType
  | double
  | float
  | int
  | longLong
  deriving DecidableEq, Repr

/-- `sizeof` -/
def ElementType.size : ElementType → ℕ
  | .double => 8
  | .float => 4
  | .int => 4
  | .longLong => 8

/-- `MPI_Datatype` -/
inductive MpiType
  | int
  | longLong
  | float
  | double
  deriving DecidableEq, Repr

/-- The number of bytes that an element of the type takes. -/
def MpiType.extent : MpiType → ℕ
  | .int => 4
  | .longLong => 8
  | .float => 4
  | .double => 8

/-- `Get_MPI_Type` -/
def getMpiType : ElementType → MpiType
  | .int => .int
  | .longLong => .longLong
  | .float => .float
  | .double => .double

@[simp] theorem extent_getMpiType (t : ElementType) : (getMpiType t).extent = t.size := by
  cases t <;> rfl

/-! ### Messages -/

structure MpiMessage where
  datatype : MpiType
  bytes : List UInt8
  deriving DecidableEq

/-- An MPI library between machines with one representation of numbers. It receives a message
as the type it was sent as; whether it does so as another type is its own affair. -/
structure Mpi where
  accepts : MpiType → MpiType → Bool
  accepts_self : ∀ datatype, accepts datatype datatype = true

/-- A library that moves bytes and does not ask for types. -/
def Mpi.untyped : Mpi where
  accepts _ _ := true
  accepts_self _ := rfl

/-- The ways in which a block does not get through. -/
inductive ElementFailure
  /-- `assert(sizeof(data[0]) == m_pimpl->word_size)` -/
  | wordSize
  /-- The message is longer than the receiver allows, or of a type the library refuses. -/
  | message
  | storage (failure : Failure)
  deriving DecidableEq

/-- `MPI_Send` of `count` elements. -/
def mpiSend (count : ℕ) (datatype : MpiType) (buffer : List UInt8) : MpiMessage :=
  { datatype := datatype, bytes := buffer.take (count * datatype.extent) }

/-- What is in the place of `count` elements after `MPI_Recv`. A shorter message leaves the
end as it was. -/
def Mpi.recv (mpi : Mpi) (count : ℕ) (datatype : MpiType) (buffer : List UInt8)
    (message : MpiMessage) : Except ElementFailure (List UInt8) :=
  let room := count * datatype.extent
  if mpi.accepts message.datatype datatype && decide (message.bytes.length ≤ room) then
    .ok ((message.bytes ++ buffer.drop message.bytes.length).take room)
  else .error .message

/-- A message that fills the place leaves nothing of what was there. -/
theorem Mpi.recv_full {mpi : Mpi} {count : ℕ} {datatype : MpiType} {message : MpiMessage}
    (haccepts : mpi.accepts message.datatype datatype = true)
    (hlength : message.bytes.length = count * datatype.extent) (buffer : List UInt8) :
    mpi.recv count datatype buffer message = .ok message.bytes := by
  simp only [recv, haccepts, hlength, le_refl, decide_true, Bool.and_self, if_true]
  rw [← hlength, List.take_left']
  rfl

theorem Mpi.recv_refused {mpi : Mpi} {count : ℕ} {datatype : MpiType} {message : MpiMessage}
    (hrefuses : mpi.accepts message.datatype datatype = false) (buffer : List UInt8) :
    mpi.recv count datatype buffer message = .error .message := by
  simp [recv, hrefuses]

/-! ### Write and Read -/

/-- The array of a caller: `blocksize` elements. -/
structure ElementBlock (t : ElementType) (blocksize : ℕ) where
  bytes : List UInt8
  length_eq : bytes.length = blocksize * t.size

/-- `Write`: what the worker sends after the header. -/
def ElementBlock.write {t : ElementType} {blocksize : ℕ} (data : ElementBlock t blocksize) :
    Except ElementFailure MpiMessage :=
  if t.size = wordSize then .ok (mpiSend blocksize (getMpiType t) data.bytes)
  else .error .wordSize

/-- `StoreData` with the message it receives, into the pool or into `data_tmp`. -/
def Storage.storeMessage (mpi : Mpi) (blocksize : ℕ) (lim : Limits) (q : DumpQueue)
    (key : SparseKey) (dataTmp : List UInt8) (message : MpiMessage)
    (s : Storage (List UInt8)) : Except ElementFailure (Storage (List UInt8)) := do
  let (d, s) ← (s.enterRecord lim q key).mapError .storage
  let buffer := if d.inMem then (s.pool[d.index]?).getD [] else dataTmp
  let block ← mpi.recv blocksize .double buffer message
  (s.saveBlock d block).mapError .storage

/-- `PullData` with the message it sends. -/
def Storage.pullMessage (blocksize : ℕ) (key : SparseKey) (s : Storage (List UInt8)) :
    Except ElementFailure MpiMessage := do
  let (block, _) ← (s.pullData key).mapError .storage
  .ok (mpiSend blocksize .double block)

/-- `Write`, what other requests do to the storage, and `Read` into the array `out`. -/
def writeThenRead (mpi : Mpi) (lim : Limits) (q : DumpQueue) {t : ElementType} {blocksize : ℕ}
    (key : SparseKey) (data out : ElementBlock t blocksize) (dataTmp : List UInt8)
    (between : List (Request (List UInt8))) (s : Storage (List UInt8)) :
    Except ElementFailure (List UInt8) := do
  let message ← data.write
  let s ← s.storeMessage mpi blocksize lim q key dataTmp message
  let (_, s) ← (s.run lim q between).mapError .storage
  let reply ← s.pullMessage blocksize key
  mpi.recv blocksize (getMpiType t) out.bytes reply

/-- Blocks of the type are written and read back, whatever the index, the state of the task
and the requests between that do not write the record, as long as the task has room for all
of them. -/
def RoundTrips (mpi : Mpi) (t : ElementType) : Prop :=
  ∀ (lim : Limits) (q : DumpQueue) (blocksize worker : ℕ) (index : SizeT)
    (data out : ElementBlock t blocksize) (dataTmp : List UInt8)
    (between : List (Request (List UInt8))) (answers : List (Option (List UInt8)))
    (s s' : Storage (List UInt8)),
    let key := headerKey worker (headerOffset index)
    lim.useDiskOverflow = true → Storage.Inv lim s →
    (∀ r ∈ between, r.storedAt key = none) →
    s.run lim q (.storeData key data.bytes :: between) = .ok (answers, s') →
    writeThenRead mpi lim q key data out dataTmp between s = .ok data.bytes

/-! ### The overflow file, byte by byte -/

/-- What has been written to each position of a file. -/
abbrev ByteFile := ℕ → Option UInt8

namespace ByteFile

/-- `fseek` and `fwrite` -/
def fwrite (offset : ℕ) (data : List UInt8) (file : ByteFile) : ByteFile := fun i =>
  if offset ≤ i ∧ i < offset + data.length then data[i - offset]? else file i

/-- `fseek` and `fread`; `none` where fewer bytes are there. -/
def fread : ℕ → ℕ → ByteFile → Option (List UInt8)
  | _, 0, _ => some []
  | offset, count + 1, file => do
      let byte ← file offset
      let rest ← fread (offset + 1) count file
      some (byte :: rest)

theorem fread_eq {file : ByteFile} {data : List UInt8} {offset : ℕ}
    (h : ∀ i < data.length, file (offset + i) = data[i]?) :
    file.fread offset data.length = some data := by
  induction data generalizing offset with
  | nil => rfl
  | cons byte data ih =>
      have hfirst : file offset = some byte := h 0 (Nat.succ_pos _)
      have hrest : file.fread (offset + 1) data.length = some data := by
        refine ih fun i hi => ?_
        rw [Nat.add_assoc, Nat.add_comm 1 i, h (i + 1) (Nat.succ_lt_succ hi)]
        exact List.getElem?_cons_succ
      simp [fread, hfirst, hrest]

/-- The blocks of the overflow file are where the storage functions look for them. -/
def HoldsBlocks (blocksize : ℕ) (file : ByteFile) (fpTmp : ℕ → Option (List UInt8)) : Prop :=
  ∀ slot block, fpTmp slot = some block → block.length = wordSize * blocksize ∧
    ∀ i < block.length, file (slot * blocksize * wordSize + i) = block[i]?

variable {blocksize : ℕ} {file : ByteFile} {fpTmp : ℕ → Option (List UInt8)} {slot : ℕ}
  {block : List UInt8}

theorem HoldsBlocks.fread (h : HoldsBlocks blocksize file fpTmp)
    (hslot : fpTmp slot = some block) :
    file.fread (slot * blocksize * wordSize) (wordSize * blocksize) = some block := by
  obtain ⟨hlength, hbytes⟩ := h slot block hslot
  rw [← hlength]
  exact fread_eq hbytes

/-- One `fwrite` changes one block. -/
theorem HoldsBlocks.fwrite (h : HoldsBlocks blocksize file fpTmp)
    (hlength : block.length = wordSize * blocksize) :
    HoldsBlocks blocksize (file.fwrite (slot * blocksize * wordSize) block)
      (Function.update fpTmp slot (some block)) := by
  intro slot' block' hslot'
  rcases eq_or_ne slot' slot with rfl | hne
  · rw [Function.update_self] at hslot'
    cases hslot'
    refine ⟨hlength, fun i hi => ?_⟩
    rw [ByteFile.fwrite, if_pos ⟨Nat.le_add_right _ _, Nat.add_lt_add_left hi _⟩,
      Nat.add_sub_cancel_left]
  · rw [Function.update_of_ne hne] at hslot'
    obtain ⟨hlength', hbytes⟩ := h slot' block' hslot'
    refine ⟨hlength', fun i hi => ?_⟩
    -- the blocks of two slots do not overlap
    have hapart : ¬(slot * blocksize * wordSize ≤ slot' * blocksize * wordSize + i ∧
        slot' * blocksize * wordSize + i < slot * blocksize * wordSize + block.length) := by
      rw [Nat.mul_assoc, Nat.mul_assoc, Nat.mul_comm blocksize]
      rcases Nat.lt_or_gt_of_ne hne with hlt | hlt
      · have hle := Nat.mul_le_mul_right (wordSize * blocksize) hlt
        rw [Nat.succ_mul] at hle
        omega
      · have hle := Nat.mul_le_mul_right (wordSize * blocksize) hlt
        rw [Nat.succ_mul] at hle
        omega
    rw [ByteFile.fwrite, if_neg hapart]
    exact hbytes i hi

/-- A record that is dumped is written at its place in the file. -/
theorem holdsBlocks_moveToDisk {s : Storage (List UInt8)}
    (h : HoldsBlocks blocksize file s.fpTmp) (hlength : block.length = wordSize * blocksize)
    (node : NodePriority) :
    HoldsBlocks blocksize
      (file.fwrite (s.numActiveDiskRecords * blocksize * wordSize) block)
      (s.moveToDisk node block).fpTmp :=
  h.fwrite hlength

/-- A record on disk is updated at its place. -/
theorem holdsBlocks_saveBlock {s s' : Storage (List UInt8)} {d : Datagram}
    (h : HoldsBlocks blocksize file s.fpTmp) (hlength : block.length = wordSize * blocksize)
    (hdisk : d.inMem = false) (hsave : s.saveBlock d block = .ok s') :
    HoldsBlocks blocksize (file.fwrite (d.index * blocksize * wordSize) block) s'.fpTmp := by
  simp only [Storage.saveBlock, hdisk, Bool.false_eq_true, if_false, Except.ok.injEq] at hsave
  subst hsave
  exact h.fwrite hlength

end ByteFile

/-! ### What gets through -/

section Through

variable {mpi : Mpi} {lim : Limits} {q : DumpQueue} {t : ElementType} {blocksize : ℕ}
  {key : SparseKey}

theorem ElementBlock.write_eq (ht : t.size = wordSize) (data : ElementBlock t blocksize) :
    data.write = .ok { datatype := getMpiType t, bytes := data.bytes } := by
  have hall : data.bytes.take (blocksize * (getMpiType t).extent) = data.bytes := by
    simp [← data.length_eq]
  rw [write, if_pos ht, mpiSend, hall]

theorem ElementBlock.length_bytes (ht : t.size = wordSize) (data : ElementBlock t blocksize) :
    data.bytes.length = blocksize * MpiType.double.extent := by
  rw [data.length_eq, ht]
  rfl

/-- The task stores the bytes of the block. -/
theorem Storage.storeMessage_eq (ht : t.size = wordSize)
    (haccepts : mpi.accepts (getMpiType t) .double = true) (data : ElementBlock t blocksize)
    (dataTmp : List UInt8) (s : Storage (List UInt8)) :
    s.storeMessage mpi blocksize lim q key dataTmp
        { datatype := getMpiType t, bytes := data.bytes } =
      (s.storeData lim q key data.bytes).mapError .storage := by
  have hrecv (buffer : List UInt8) : mpi.recv blocksize .double buffer
      { datatype := getMpiType t, bytes := data.bytes } = .ok data.bytes :=
    Mpi.recv_full haccepts (data.length_bytes ht) buffer
  simp only [storeMessage, storeData, hrecv]
  cases s.enterRecord lim q key <;> rfl

/-- What no request between has written is what the task still has. -/
theorem Storage.pullData_after_run (hlim : lim.useDiskOverflow = true)
    {s s₁ s' : Storage (List UInt8)} {block : List UInt8} {rs : List (Request (List UInt8))}
    {answers : List (Option (List UInt8))} (hinv : Inv lim s)
    (hstore : s.storeData lim q key block = .ok s₁) (hrun : run lim q rs s₁ = .ok (answers, s'))
    (hrs : ∀ r ∈ rs, r.storedAt key = none) : ∃ s₂, s'.pullData key = .ok (block, s₂) := by
  obtain ⟨s₃, hstore₃, stored⟩ | ⟨herror, -⟩ := storeData_spec (q := q) hlim hinv key block
  · obtain rfl : s₃ = s₁ := Except.ok.inj (hstore₃.symm.trans hstore)
    obtain ⟨hinv', hmap⟩ := run_refines hlim stored.inv hrun
    have hlast : lastStored key rs = none := by
      rw [lastStored, List.findSome?_eq_none_iff]
      exact fun r hr => hrs r (List.mem_reverse.mp hr)
    have hcontents : s'.contents key = some block := by
      have happly := BlockMap.run_apply rs s₃.contents key
      rw [hmap, hlast, Option.none_or, stored.contents, Function.update_self] at happly
      exact happly
    obtain ⟨d, hkey⟩ := exists_of_contents hcontents
    obtain ⟨sent, s₂, hpull, pulled⟩ := pullData_spec hinv' hkey
    obtain rfl : block = sent := Option.some.inj (hcontents.symm.trans pulled.sent)
    exact ⟨s₂, hpull⟩
  · rw [hstore] at herror
    cases herror

theorem roundTrips_of_accepts (ht : t.size = wordSize)
    (hstore : mpi.accepts (getMpiType t) .double = true)
    (hread : mpi.accepts .double (getMpiType t) = true) : RoundTrips mpi t := by
  intro lim q blocksize worker index data out dataTmp between answers s s' key hlim hinv hbetween
    hserved
  obtain ⟨answer, rest, s₁, hserve, hrun, -⟩ := Storage.run_cons_ok hserved
  obtain ⟨s₁', hstored, hresult⟩ := Lib.exists_of_bind_eq_ok hserve
  cases hresult
  obtain ⟨s₂, hpull⟩ := Storage.pullData_after_run hlim hinv hstored hrun hbetween
  have hreply : s'.pullMessage blocksize key =
      .ok { datatype := .double, bytes := data.bytes } := by
    have hall : data.bytes.take (blocksize * MpiType.double.extent) = data.bytes := by
      rw [← data.length_bytes ht, List.take_length]
    rw [Storage.pullMessage, hpull]
    change Except.ok (mpiSend blocksize .double data.bytes) = _
    rw [mpiSend, hall]
  have hrecv : mpi.recv blocksize (getMpiType t) out.bytes
      { datatype := .double, bytes := data.bytes } = .ok data.bytes := by
    refine Mpi.recv_full hread ?_ _
    rw [extent_getMpiType]
    exact data.length_eq
  -- the bytes go the whole way unchanged
  calc
    writeThenRead mpi lim q key data out dataTmp between s
        = (do
            let s ← s.storeMessage mpi blocksize lim q key dataTmp
              { datatype := getMpiType t, bytes := data.bytes }
            let (_, s) ← (s.run lim q between).mapError .storage
            let reply ← s.pullMessage blocksize key
            mpi.recv blocksize (getMpiType t) out.bytes reply) := by
          rw [writeThenRead, data.write_eq ht]
          rfl
    _ = (do
          let reply ← s'.pullMessage blocksize key
          mpi.recv blocksize (getMpiType t) out.bytes reply) := by
          rw [Storage.storeMessage_eq ht hstore, hstored]
          change ((s₁.run lim q between).mapError ElementFailure.storage >>= _) = _
          rw [hrun]
          rfl
    _ = .ok data.bytes := by
          rw [hreply]
          exact hrecv

/-- A message that is received is of a type that the library accepts. -/
theorem Mpi.accepts_of_recv {count : ℕ} {datatype : MpiType} {buffer bytes : List UInt8}
    {message : MpiMessage} (h : mpi.recv count datatype buffer message = .ok bytes) :
    mpi.accepts message.datatype datatype = true := by
  cases haccepts : mpi.accepts message.datatype datatype with
  | true => rfl
  | false =>
      rw [Mpi.recv_refused haccepts] at h
      cases h

/-- What has been read back has passed the assertion and two receives. -/
theorem accepts_of_writeThenRead {data out : ElementBlock t blocksize}
    {dataTmp bytes : List UInt8} {between : List (Request (List UInt8))}
    {s : Storage (List UInt8)}
    (h : writeThenRead mpi lim q key data out dataTmp between s = .ok bytes) :
    t.size = wordSize ∧ mpi.accepts (getMpiType t) .double = true ∧
      mpi.accepts .double (getMpiType t) = true := by
  obtain ⟨message, hwrite, hrest⟩ := Lib.exists_of_bind_eq_ok h
  obtain ⟨s₁, hstore, hrest⟩ := Lib.exists_of_bind_eq_ok hrest
  obtain ⟨r, -, hrest⟩ := Lib.exists_of_bind_eq_ok hrest
  obtain ⟨reply, hpull, hrecv⟩ := Lib.exists_of_bind_eq_ok hrest
  rw [ElementBlock.write] at hwrite
  split at hwrite
  · rename_i ht
    cases hwrite
    obtain ⟨e, -, hrest⟩ := Lib.exists_of_bind_eq_ok hstore
    obtain ⟨block, hstored, -⟩ := Lib.exists_of_bind_eq_ok hrest
    obtain ⟨r', -, hsent⟩ := Lib.exists_of_bind_eq_ok hpull
    cases hsent
    exact ⟨ht, Mpi.accepts_of_recv hstored, Mpi.accepts_of_recv hrecv⟩
  · cases hwrite

end Through

/-- One element of zero bytes. -/
def zeroElement (t : ElementType) : ElementBlock t 1 where
  bytes := List.replicate (1 * t.size) 0
  length_eq := List.length_replicate

/-- A task with two slots has room for one record. -/
theorem RoundTrips.zeroElement {mpi : Mpi} {t : ElementType} (h : RoundTrips mpi t) :
    writeThenRead mpi twoSlots dumpQueue (headerKey 0 (headerOffset 0))
      (zeroElement t) (zeroElement t) [] [] (initStorage twoSlots []) =
        .ok (Ocore.zeroElement t).bytes := by
  have hroom : ∃ r, Storage.run twoSlots dumpQueue
      [.storeData (headerKey 0 (headerOffset 0)) (Ocore.zeroElement t).bytes]
      (initStorage twoSlots []) = .ok r ∧ decide (r.1 = [none]) = true := by
    refine Lib.exists_ok_of_any ?_
    cases t <;> decide +kernel
  obtain ⟨⟨answers, s'⟩, hrun, -⟩ := hroom
  exact h twoSlots dumpQueue 1 0 0 _ _ [] [] answers _ s' rfl
    (Storage.inv_initStorage _ _) (fun r hr => absurd hr List.not_mem_nil) hrun

/-- **Element types.** Blocks of doubles get through, and blocks of `long long` do if MPI
lets them pass for doubles and back; `float` and `int` are not of the word size. -/
theorem roundTrips_iff (mpi : Mpi) (t : ElementType) :
    RoundTrips mpi t ↔ t = .double ∨ (t = .longLong ∧
      mpi.accepts .longLong .double = true ∧ mpi.accepts .double .longLong = true) := by
  constructor
  · intro h
    obtain ⟨ht, hstore, hread⟩ := accepts_of_writeThenRead h.zeroElement
    cases t with
    | double => exact Or.inl rfl
    | longLong => exact Or.inr ⟨rfl, hstore, hread⟩
    | float => cases ht
    | int => cases ht
  · rintro (rfl | ⟨rfl, hstore, hread⟩)
    · exact roundTrips_of_accepts rfl (mpi.accepts_self _) (mpi.accepts_self _)
    · exact roundTrips_of_accepts rfl hstore hread

/-- A `float` does not get through, whatever MPI lets pass. -/
theorem float_not_roundTrips : ¬RoundTrips .untyped .float := by
  intro h
  exact absurd (accepts_of_writeThenRead h.zeroElement).1 (by decide)

end Grvy.Ocore
