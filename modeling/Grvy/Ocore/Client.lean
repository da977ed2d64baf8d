import Grvy.Ocore.Header

/-!
The client side of Ocore: what one call of `Write`, `Read` or `PopRecord` asks
of which Ocore task.

A worker keeps the owner of each of its records in `rank_map` and assigns new
records to the Ocore tasks in turn. Nothing of this depends on other workers,
so a call is planned from the worker's own state alone. What the calls are for
is stated below as a sequential program over a map of the worker's own.
-/

namespace Grvy.Ocore

open Std (TreeMap)

/-! ### Jobs -/

/-- A call of the public interface. -/
inductive Call (Block : Type)
  | write (offset : SizeT) (data : Block)
  | read (offset : SizeT)
  | popRecord

/-- What a call returns. -/
inductive Outcome (Block : Type)
  | written
  | delivered (data : Block)
  | popped (offset : SizeT) (data : Block)
  deriving DecidableEq

/-- Ranks below `startingRank` are workers, the next `numOcoreTasks` are Ocore
tasks; `Initialize` aborts if one of the two groups is empty. -/
structure Layout where
  startingRank : ℕ
  numOcoreTasks : ℕ
  startingRank_pos : 0 < startingRank
  numOcoreTasks_pos : 0 < numOcoreTasks

/-- `mpi_nprocs_global` -/
def Layout.nprocs (layout : Layout) : ℕ := layout.startingRank + layout.numOcoreTasks

/-- One run of an application: its layout, its options, and the calls that each
worker makes between `Initialize` and `Finalize`. -/
structure Job (Block : Type) extends Layout where
  allowEmptyRecords : Bool
  dumpStats : Bool
  mpiInitializedByOcore : Bool
  /-- The record of all zeros. -/
  zero : Block
  program : ℕ → List (Call Block)

variable {Block : Type}

/-- The option is read by the master and not broadcast: the other ranks keep the
default. -/
def Job.allowEmptyRecordsOn (job : Job Block) (rank : ℕ) : Bool :=
  if rank = 0 then job.allowEmptyRecords else true

/-! ### Requests -/

def MsgType.isWrite : MsgType → Bool
  | .writeNew | .updateOld => true
  | .read | .exit => false

/-- A header on its way. The number of the worker's call and the data announced
are not sent along: no task reads them, and they serve to say which messages
belong together. -/
structure Posted (Block : Type) where
  header : Header
  call : ℕ
  data : Option Block
  data_isSome : data.isSome = header.msgType.isWrite
  deriving DecidableEq

/-- A data message. The number of the call is not sent along either. -/
structure Packet (Block : Type) where
  data : Block
  call : ℕ

/-- The data message that follows a header. -/
def Posted.payload (posted : Posted Block) : Option (Packet Block) :=
  posted.data.map fun data => { data := data, call := posted.call }

/-- The header that `Write_to_Pool` sends. -/
def writeToPool (destTask : ℕ) (newData : Bool) (offset : SizeT) (data : Block) (call : ℕ) :
    Posted Block where
  header := requestHeader (if newData then .writeNew else .updateOld) destTask offset
  call := call
  data := some data
  data_isSome := by cases newData <;> rfl

/-- The header that `Read_from_Pool` sends. -/
def readFromPool (recvTask : ℕ) (offset : SizeT) (call : ℕ) : Posted Block where
  header := requestHeader .read recvTask offset
  call := call
  data := none
  data_isSome := rfl

/-- The header that `Finalize` sends. -/
def exitMessage : Posted Block where
  header := { msgType := .exit, destination := 0, offset := 0 }
  call := 0
  data := none
  data_isSome := rfl

/-! ### Planning a call -/

/-- What a worker knows about its records. -/
structure Client where
  rankMap : TreeMap SizeT ℕ
  distribRank : ℕ

def Client.new : Client := { rankMap := ∅, distribRank := 0 }

/-- Assign the record to the next Ocore task in turn. -/
def Client.assignOwnership (layout : Layout) (sparseIndex : SizeT) (client : Client) :
    ℕ × Client :=
  let owner := client.distribRank + layout.startingRank
  let distribRank := client.distribRank + 1
  (owner,
    { rankMap := client.rankMap.insert sparseIndex owner
      distribRank := if distribRank = layout.numOcoreTasks then 0 else distribRank })

/-- What a call does first. -/
inductive Plan (Block : Type)
  /-- Send a request; `popped` is the record to forget once it is answered. -/
  | request (client : Client) (posted : Posted Block) (popped : Option SizeT)
  /-- Return a record of all zeros. -/
  | emptyRead
  /-- Call `Abort`. -/
  | abort

def Client.plan (job : Job Block) (rank call : ℕ) (client : Client) : Call Block → Plan Block
  | .write offset data =>
      match client.rankMap[offset]? with
      | none =>
          let (owner, client) := client.assignOwnership job.toLayout offset
          .request client (writeToPool owner true offset data call) none
      | some owner => .request client (writeToPool owner false offset data call) none
  | .read offset =>
      match client.rankMap[offset]? with
      | none => if job.allowEmptyRecordsOn rank then .emptyRead else .abort
      | some owner => .request client (readFromPool owner offset call) none
  | .popRecord =>
      match client.rankMap.toList.head? with
      | none => .abort
      | some (offset, owner) => .request client (readFromPool owner offset call) (some offset)

/-- `rank_map.erase(it)` -/
def Client.forget (popped : Option SizeT) (client : Client) : Client :=
  match popped with
  | none => client
  | some offset => { client with rankMap := client.rankMap.erase offset }

/-- What a call returns once its record is there. -/
def Outcome.received (popped : Option SizeT) (data : Block) : Outcome Block :=
  match popped with
  | none => .delivered data
  | some offset => .popped offset data

/-! ### What the calls are for -/

/-- The sequential meaning of one call: a worker's records form a map of its
own. `none` where the code calls `Abort`. -/
def Call.run (allowEmpty : Bool) (zero : Block) (c : Call Block) (records : TreeMap SizeT Block) :
    Option (Outcome Block × TreeMap SizeT Block) :=
  match c with
  | .write offset data => some (.written, records.insert offset data)
  | .read offset =>
      match records[offset]? with
      | none => if allowEmpty then some (.delivered zero, records) else none
      | some data => some (.delivered data, records)
  | .popRecord =>
      match records.toList.head? with
      | none => none
      | some (offset, data) => some (.popped offset data, records.erase offset)

/-- The sequential meaning of a sequence of calls. -/
def Call.runAll (allowEmpty : Bool) (zero : Block) :
    List (Call Block) → TreeMap SizeT Block → Option (List (Outcome Block) × TreeMap SizeT Block)
  | [], records => some ([], records)
  | c :: calls, records => do
      let (outcome, records) ← c.run allowEmpty zero records
      let (outcomes, records) ← runAll allowEmpty zero calls records
      some (outcome :: outcomes, records)

/-- The program of a worker calls `Abort`. -/
def Job.ProgramAborts (job : Job Block) (rank : ℕ) : Prop :=
  Call.runAll (job.allowEmptyRecordsOn rank) job.zero (job.program rank) ∅ = none

end Grvy.Ocore
