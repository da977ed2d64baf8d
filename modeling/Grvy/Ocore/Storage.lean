import Mathlib.Data.Rat.Floor
import Grvy.Lib.BinaryFloat
import Grvy.Lib.PriorityQueue

/-!
The storage side of one Ocore task: `StoreData`, `PullData`, `DumptoDisk` and
`GetFreeRecord` of `grvy_ramdisk.cpp`, acting on the sparse map, the record
pool, the stack of free slots, the two counters and the overflow file.

A block of `blocksize` words is an element of an arbitrary type: none of these
functions looks inside one. The overflow file is an array of such blocks, the
counters are unbounded integers, and a failed assertion or a call of `Abort`
ends the run with a `Failure`. `std::map` is an ordered map and
`std::priority_queue` any queue that meets its contract.
-/

namespace Grvy.Ocore

open Std Grvy.Lib

/-- `size_t`. -/
abbrev SizeT := BitVec 64

/-- Combines the sending rank and the sparse index. -/
abbrev SparseKey := ℕ × SizeT

instance : Ord SparseKey := lexOrd

/-- `MPI_Ocore_datagram`. -/
structure Datagram where
  /-- Does the record reside in memory or on disk? -/
  inMem : Bool
  /-- Its location: a pool slot or a disk slot. -/
  index : ℕ
  readCount : ℕ
  writeCount : ℕ
  deriving DecidableEq, Repr, Inhabited

/-- An element of the queue from which `DumptoDisk` picks its victims. -/
structure NodePriority where
  priority : ℕ
  key : SparseKey
  ocoreIndex : ℕ
  deriving DecidableEq

/-- `ComparePriority`: more reads make a record less urgent to dump. -/
def comparePriority (n1 n2 : NodePriority) : Bool := decide (n2.priority < n1.priority)

/-- `std::priority_queue<NodePriority, ..., ComparePriority>`. -/
abbrev DumpQueue := PriorityQueue NodePriority comparePriority

/-- The queue that pops records read equally often in key order. -/
def dumpQueue : DumpQueue := PriorityQueue.ofRank NodePriority.priority

/-- The settings the storage functions read, and the rounding of their arithmetic. -/
structure Limits where
  dumpWatermarkRatio : ℚ
  maxNumRecords : ℕ
  useDiskOverflow : Bool
  rounding : Rounding

/-- The options `Initialize` accepts, with the bounds its sanity checks assert. -/
structure Settings where
  watermarkRatio : ℚ
  maxPoolsizeMBs : ℕ
  blocksize : ℕ
  useDiskOverflow : Bool
  ratio_pos : 0 < watermarkRatio
  ratio_lt_one : watermarkRatio < 1
  poolsize_pos : 0 < maxPoolsizeMBs
  blocksize_pos : 0 < blocksize

/-- The word size of an Ocore record, in bytes. -/
def wordSize : ℕ := 8

/-- The number of blocks that fit into the pool. -/
def Settings.maxNumRecords (cfg : Settings) : ℕ :=
  cfg.maxPoolsizeMBs * 1024 * 1024 / (cfg.blocksize * wordSize)

def Settings.limits (cfg : Settings) : Limits where
  dumpWatermarkRatio := cfg.watermarkRatio
  maxNumRecords := cfg.maxNumRecords
  useDiskOverflow := cfg.useDiskOverflow
  rounding := BinaryFormat.binary64.rounding

/-- The same settings in exact arithmetic. -/
def Settings.exactLimits (cfg : Settings) : Limits :=
  { cfg.limits with rounding := .exact }

/-- Two slots, one of which an overflow of a full pool empties. -/
def twoSlots : Limits where
  dumpWatermarkRatio := 1 / 2
  maxNumRecords := 2
  useDiskOverflow := true
  rounding := BinaryFormat.binary64.rounding

/-- The ways in which a storage request can end the task. -/
inductive Failure
  /-- `GetFreeRecord` aborts: the ramdisk is full and overflow is disabled. -/
  | ramdiskFull
  /-- `assert( !free_records.empty() )` -/
  | noFreeRecord
  /-- `assert(it != smap.end())` -/
  | unknownKey
  /-- `assert( fread(...) == blocksize )` -/
  | shortRead
  /-- An index outside `pool`, which the source leaves undefined. -/
  | poolRange
  deriving DecidableEq, Repr

/-- The state of an Ocore task that its storage functions read and write. -/
structure Storage (Block : Type) where
  smap : TreeMap SparseKey Datagram
  pool : List Block
  /-- The overflow file; `none` where no block has been written yet. -/
  fpTmp : ℕ → Option Block
  /-- The stack of unoccupied slots, top first. -/
  freeRecords : List ℕ
  numActiveRecords : ℤ
  numActiveDiskRecords : ℕ
  overflowTriggered : Bool

variable {Block : Type}

/-- The storage `Initialize` leaves behind, each slot of the pool holding the
block `vector<double> data(blocksize)`. -/
def initStorage (lim : Limits) (data : Block) : Storage Block where
  smap := ∅
  pool := List.replicate lim.maxNumRecords data
  fpTmp := fun _ => none
  freeRecords := []
  numActiveRecords := 0
  numActiveDiskRecords := 0
  overflowTriggered := false

namespace Storage

/-! ### DumptoDisk -/

/-- The queue entry of one record; records on disk have none. -/
def candidate (key : SparseKey) (d : Datagram) : Option NodePriority :=
  if d.inMem then some { priority := d.readCount, key := key, ocoreIndex := d.index } else none

/-- The records pushed on the queue, in map order. -/
def candidates (s : Storage Block) : List NodePriority :=
  s.smap.toList.filterMap fun e => candidate e.1 e.2

/-- `num_to_dump`, a product that is rounded and then truncated. -/
def numToDump (lim : Limits) (size : ℕ) : ℕ :=
  ⌊lim.rounding.round (lim.dumpWatermarkRatio * size)⌋₊

@[simp] theorem numToDump_zero (lim : Limits) : numToDump lim 0 = 0 := by
  rw [numToDump, Nat.cast_zero, mul_zero, lim.rounding.round_zero, Nat.floor_zero]

/-- What one turn of the dump loop does with the block of its record: the block
goes to the end of the file and the slot onto the free stack. -/
def moveToDisk (node : NodePriority) (block : Block) (s : Storage Block) : Storage Block :=
  { s with
    fpTmp := Function.update s.fpTmp s.numActiveDiskRecords (some block)
    smap := s.smap.insert node.key
      { s.smap.getD node.key default with inMem := false, index := s.numActiveDiskRecords }
    freeRecords := node.ocoreIndex :: s.freeRecords
    numActiveDiskRecords := s.numActiveDiskRecords + 1
    numActiveRecords := s.numActiveRecords - 1 }

def dumpRecord (node : NodePriority) (s : Storage Block) : Except Failure (Storage Block) :=
  match s.pool[node.ocoreIndex]? with
  | none => .error .poolRange
  | some block => .ok (s.moveToDisk node block)

def dumpRecords : List NodePriority → Storage Block → Except Failure (Storage Block)
  | [], s => .ok s
  | node :: nodes, s => do dumpRecords nodes (← dumpRecord node s)

def dumptoDisk (lim : Limits) (q : DumpQueue) (s : Storage Block) :
    Except Failure (Storage Block) :=
  let nodes := s.candidates
  dumpRecords ((q.drain nodes).take (numToDump lim nodes.length))
    { s with overflowTriggered := true }

/-! ### GetFreeRecord -/

/-- Returns a slot for a new record. There are three ways out: the next slot
by count, the top of the free stack, and the top of the free stack after an
overflow. -/
def getFreeRecord (lim : Limits) (q : DumpQueue) (s : Storage Block) :
    Except Failure (ℕ × Storage Block) :=
  if s.numActiveRecords < lim.maxNumRecords then
    match s.freeRecords with
    | [] => .ok (s.numActiveRecords.toNat, s)
    | freeIndex :: rest => .ok (freeIndex, { s with freeRecords := rest })
  else if lim.useDiskOverflow then do
    let s ← s.dumptoDisk lim q
    match s.freeRecords with
    | [] => .error .noFreeRecord
    | freeIndex :: rest =>
        .ok (freeIndex,
          { s with freeRecords := rest, numActiveRecords := s.numActiveRecords + 1 })
  else
    .error .ramdiskFull

/-! ### StoreData and PullData -/

/-- The first half of `StoreData`: find the record, or enter a new one that
lives in the ramdisk. -/
def enterRecord (lim : Limits) (q : DumpQueue) (key : SparseKey) (s : Storage Block) :
    Except Failure (Datagram × Storage Block) :=
  match s.smap[key]? with
  | none => do
      let (index, s) ← s.getFreeRecord lim q
      let datagram := { inMem := true, index := index, readCount := 0, writeCount := 1 }
      .ok (datagram,
        { s with
          smap := s.smap.insert key datagram
          numActiveRecords := s.numActiveRecords + 1 })
  | some d =>
      .ok (d, { s with smap := s.smap.insert key { d with writeCount := d.writeCount + 1 } })

/-- The second half of `StoreData`: the block received goes where the record
lives. -/
def saveBlock (d : Datagram) (block : Block) (s : Storage Block) :
    Except Failure (Storage Block) :=
  if d.inMem then
    if d.index < s.pool.length then .ok { s with pool := s.pool.set d.index block }
    else .error .poolRange
  else
    .ok { s with fpTmp := Function.update s.fpTmp d.index (some block) }

/-- `StoreData`, once the data message has been received. The flag `new_data`
of the source is not read there. -/
def storeData (lim : Limits) (q : DumpQueue) (key : SparseKey) (block : Block)
    (s : Storage Block) : Except Failure (Storage Block) := do
  let (d, s) ← s.enterRecord lim q key
  s.saveBlock d block

/-- The block `PullData` sends for a record. -/
def loadBlock (d : Datagram) (s : Storage Block) : Except Failure Block :=
  if d.inMem then
    match s.pool[d.index]? with
    | none => .error .poolRange
    | some block => .ok block
  else
    match s.fpTmp d.index with
    | none => .error .shortRead
    | some block => .ok block

def pullData (key : SparseKey) (s : Storage Block) : Except Failure (Block × Storage Block) :=
  match s.smap[key]? with
  | none => .error .unknownKey
  | some d => do
      let s := { s with smap := s.smap.insert key { d with readCount := d.readCount + 1 } }
      let block ← s.loadBlock d
      .ok (block, s)

end Storage

/-! ### Sequences of requests -/

/-- What `PollForWork` asks of the storage. -/
inductive Request (Block : Type)
  | storeData (key : SparseKey) (block : Block)
  | pullData (key : SparseKey)

/-- Serve one request; a read answers with the block sent. -/
def Storage.serve (lim : Limits) (q : DumpQueue) (r : Request Block) (s : Storage Block) :
    Except Failure (Option Block × Storage Block) :=
  match r with
  | .storeData key block => do .ok (none, ← s.storeData lim q key block)
  | .pullData key => do
      let (block, s) ← s.pullData key
      .ok (some block, s)

/-- Serve a sequence of requests in order, collecting the answers. -/
def Storage.run (lim : Limits) (q : DumpQueue) :
    List (Request Block) → Storage Block → Except Failure (List (Option Block) × Storage Block)
  | [], s => .ok ([], s)
  | r :: rs, s => do
      let (answer, s) ← s.serve lim q r
      let (answers, s) ← Storage.run lim q rs s
      .ok (answer :: answers, s)

end Grvy.Ocore
