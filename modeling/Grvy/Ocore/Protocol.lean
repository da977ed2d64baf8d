import Grvy.Lib.MessagePassing
import Grvy.Ocore.Client

/-!
The Ocore protocol: workers that write and read records, Ocore tasks that poll
for work, and the way all of them finalize.

Every rank runs the part of the code that its group runs. A worker makes the
calls of its program one after the other and then enters `Finalize`; an Ocore
task polls for headers from any source, takes the data message of a write from
the header's sender and sends the data message of a read to it, until the
master tells it to exit, and then enters `Finalize` itself. The three kinds of
messages travel under three tags. The storage behind an Ocore task is the map
that `StoreData` and `PullData` implement: it is kept as the list of the
requests served, and a pull sends the block last stored under its key.

Past the barrier on the global communicator `Finalize` only takes part in
collective operations; these are listed in order, with those of `Summarize`.
-/

namespace Grvy.Ocore

open Std (TreeMap)
open Grvy.Lib.MessagePassing

/-- The message tags: `TAG_HEADER`, `sendtag` and `recvtag`. -/
inductive Tag
  | header
  | send
  | recv
  deriving DecidableEq

/-- What travels under each tag. -/
abbrev Message (Block : Type) : Tag → Type
  | .header => Posted Block
  | .send => Packet Block
  | .recv => Packet Block

/-- The communicators. -/
inductive Comm
  | global
  | work
  | ocore
  deriving DecidableEq

/-! ### Tasks -/

inductive WorkerPhase (Block : Type)
  | ready
  /-- `Write_to_Pool` has sent the header. -/
  | sending (task : ℕ) (packet : Packet Block)
  /-- `Read_from_Pool` has sent the header. -/
  | awaiting (posted : Posted Block) (popped : Option SizeT)
  /-- `Finalize` of the master is about to tell this task to exit. -/
  | exiting (task : ℕ)
  /-- `Finalize` is past its point-to-point messages. -/
  | leaving (collectives : List Comm)

structure Worker (Block : Type) where
  client : Client
  /-- The calls not completed yet. -/
  todo : List (Call Block)
  /-- What the completed calls returned, oldest first. -/
  returned : List (Outcome Block)
  /-- Every request header sent so far, oldest first. -/
  issued : List (Posted Block)
  phase : WorkerPhase Block

inductive OcorePhase (Block : Type)
  | polling
  /-- `StoreData` waits for the data message. -/
  | receiving (source : ℕ) (posted : Posted Block)
  /-- `PullData` is about to send. -/
  | replying (source : ℕ) (posted : Posted Block)
  /-- `PollForWork` has returned. -/
  | leaving (collectives : List Comm)

/-- A request that has been processed, with the data received for it. -/
structure Served (Block : Type) where
  source : ℕ
  posted : Posted Block
  stored : Option Block

structure OcoreTask (Block : Type) where
  /-- The requests processed so far, oldest first. -/
  served : List (Served Block)
  phase : OcorePhase Block

/-- What a rank keeps; a worker uses the one part and an Ocore task the
other. -/
structure Task (Block : Type) where
  worker : Worker Block
  ocore : OcoreTask Block

variable {Block : Type}

/-- The storage request that a served header amounts to. -/
def Served.request (e : Served Block) : Request Block :=
  match e.stored with
  | some data => .storeData (headerKey e.source e.posted.header.offset) data
  | none => .pullData (headerKey e.source e.posted.header.offset)

/-- The requests the storage of an Ocore task has seen. -/
def OcoreTask.requests (v : OcoreTask Block) : List (Request Block) :=
  v.served.map Served.request

/-! ### Finalize -/

/-- The collectives of a worker in `Finalize` after its last message: the
barrier, the reductions and the gathers of `Summarize`, and the barrier before
`MPI_Finalize`. -/
def Job.workerCollectives (job : Job Block) : List Comm :=
  .global :: ([.work, .work] ++ List.replicate 5 .global ++
    if job.mpiInitializedByOcore then [.global] else [])

/-- The collectives of an Ocore task in `Finalize`, with those of
`DumpStatistics`. -/
def Job.ocoreCollectives (job : Job Block) : List Comm :=
  .global :: ((if job.dumpStats then List.replicate job.numOcoreTasks .ocore else []) ++
    List.replicate 5 .global ++ if job.mpiInitializedByOcore then [.global] else [])

/-! ### What each task does next -/

abbrev OcoreAction (Block : Type) (σ : Type) := Action ℕ Tag Comm σ (Message Block)

def Action.ofCollectives {σ : Type} (leave : List Comm → σ) :
    List Comm → OcoreAction Block σ
  | [] => .stop
  | comm :: rest => .collective comm (leave rest)

/-- A call is completed. -/
def Worker.complete (w : Worker Block) (outcome : Outcome Block) : Worker Block :=
  { w with todo := w.todo.tail, returned := w.returned ++ [outcome], phase := .ready }

/-- A request header has been sent. -/
def Worker.post (w : Worker Block) (client : Client) (posted : Posted Block)
    (popped : Option SizeT) : Worker Block :=
  { w with
    client := client
    issued := w.issued ++ [posted]
    phase := match posted.payload with
      | some packet => .sending posted.header.destination packet
      | none => .awaiting posted popped }

/-- The record of a read has been received. -/
def Worker.receive (w : Worker Block) (popped : Option SizeT) (data : Block) : Worker Block :=
  { w with client := w.client.forget popped }.complete (.received popped data)

/-- The master goes on telling the Ocore tasks to exit, from `task` on. -/
def Worker.teardown (job : Job Block) (task : ℕ) (w : Worker Block) : Worker Block :=
  { w with
    phase := if task < job.nprocs then .exiting task else .leaving job.workerCollectives }

def Worker.action (job : Job Block) (rank : ℕ) (w : Worker Block) :
    OcoreAction Block (Worker Block) :=
  match w.phase with
  | .ready =>
      match w.todo with
      | [] =>
          .collective .work
            (if rank = 0 then w.teardown job job.startingRank
            else { w with phase := .leaving job.workerCollectives })
      | c :: _ =>
          match w.client.plan job rank w.returned.length c with
          | .request client posted popped =>
              .send posted.header.destination .header posted (w.post client posted popped)
          | .emptyRead => .compute (w.complete (.delivered job.zero))
          | .abort => .abort
  | .sending task packet => .send task .send packet (w.complete .written)
  | .awaiting posted popped =>
      .recv (some posted.header.destination) .recv fun _ packet => w.receive popped packet.data
  | .exiting task => .send task .header exitMessage (w.teardown job (task + 1))
  | .leaving collectives =>
      Action.ofCollectives (fun rest => { w with phase := .leaving rest }) collectives

/-- What a task makes of a header it has received. -/
def OcoreTask.accept (job : Job Block) (rank source : ℕ) (posted : Posted Block)
    (v : OcoreTask Block) : OcoreTask Block :=
  match posted.header.msgType with
  | .writeNew | .updateOld =>
      if rank = posted.header.destination then { v with phase := .receiving source posted } else v
  | .read =>
      if rank = posted.header.destination then { v with phase := .replying source posted } else v
  | .exit => { v with phase := .leaving job.ocoreCollectives }

def OcoreTask.serve (source : ℕ) (posted : Posted Block) (stored : Option Block)
    (v : OcoreTask Block) : OcoreTask Block :=
  { v with
    served := v.served ++ [{ source := source, posted := posted, stored := stored }]
    phase := .polling }

def OcoreTask.action (job : Job Block) (rank : ℕ) (v : OcoreTask Block) :
    OcoreAction Block (OcoreTask Block) :=
  match v.phase with
  | .polling => .recv none .header fun source posted => v.accept job rank source posted
  | .receiving source posted =>
      .recv (some source) .send fun _ packet => v.serve source posted (some packet.data)
  | .replying source posted =>
      match lastStored (headerKey source posted.header.offset) v.requests with
      | some data =>
          .send source .recv { data := data, call := posted.call } (v.serve source posted none)
      | none => .abort
  | .leaving collectives =>
      Action.ofCollectives (fun rest => { v with phase := .leaving rest }) collectives

/-! ### The system -/

def Action.map {σ τ : Type} (f : σ → τ) : OcoreAction Block σ → OcoreAction Block τ
  | .send dest tag msg next => .send dest tag msg (f next)
  | .recv source tag next => .recv source tag fun p msg => f (next p msg)
  | .collective comm next => .collective comm (f next)
  | .compute next => .compute (f next)
  | .abort => .abort
  | .stop => .stop

def Task.action (job : Job Block) (rank : ℕ) (task : Task Block) :
    OcoreAction Block (Task Block) :=
  if rank < job.startingRank then
    Action.map (fun w => { task with worker := w }) (task.worker.action job rank)
  else if rank < job.nprocs then
    Action.map (fun v => { task with ocore := v }) (task.ocore.action job rank)
  else .stop

/-- The ranks of a communicator. -/
def Layout.members (layout : Layout) : Comm → List ℕ
  | .global => List.range layout.nprocs
  | .work => List.range layout.startingRank
  | .ocore => (List.range layout.numOcoreTasks).map (· + layout.startingRank)

/-- All ranks after `Initialize`. -/
abbrev OcoreSystem (Block : Type) := System ℕ Tag Comm (Task Block) (Message Block)

abbrev OcoreState (Block : Type) := State ℕ Tag (Task Block) (Message Block)

def Job.system (job : Job Block) : OcoreSystem Block where
  action := Task.action job
  members := job.members

def Job.initTask (job : Job Block) (rank : ℕ) : Task Block where
  worker :=
    { client := .new, todo := job.program rank, returned := [], issued := [], phase := .ready }
  ocore := { served := [], phase := .polling }

def Job.initState (job : Job Block) : OcoreState Block where
  loc := job.initTask
  pending := fun _ => none
  chan := fun _ _ _ => []
  aborted := false

/-- The states that some interleaving of the tasks reaches. -/
def Job.Reachable (job : Job Block) (s : OcoreState Block) : Prop :=
  job.system.Reachable job.initState s

end Grvy.Ocore
