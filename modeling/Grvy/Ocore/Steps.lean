import Grvy.Ocore.Protocol

/-!
What a step of the Ocore protocol can do.

Every event is a turn of one task, or a collective in which all members of a
communicator take a turn. The turns are listed once, with everything they
require and everything they change, and the invariants of the protocol are
proved from this list.
-/

namespace Grvy.Ocore

open Grvy.Lib.MessagePassing

variable {Block : Type} {job : Job Block} {rank : ℕ} {s s' : OcoreState Block}

def workerOf (s : OcoreState Block) (rank : ℕ) : Worker Block := (s.loc rank).worker

def ocoreOf (s : OcoreState Block) (rank : ℕ) : OcoreTask Block := (s.loc rank).ocore

/-! ### Turns -/

/-- The actions of a worker, by phase. -/
inductive Worker.Turn (job : Job Block) (rank : ℕ) (w : Worker Block) :
    OcoreAction Block (Worker Block) → Prop
  | post {c : Call Block} {calls : List (Call Block)} {client : Client} {posted : Posted Block}
      {popped : Option SizeT} :
      w.phase = .ready → w.todo = c :: calls →
      w.client.plan job rank w.returned.length c = .request client posted popped →
      Turn job rank w
        (.send posted.header.destination .header posted (w.post client posted popped))
  | emptyRead {c : Call Block} {calls : List (Call Block)} :
      w.phase = .ready → w.todo = c :: calls →
      w.client.plan job rank w.returned.length c = .emptyRead →
      Turn job rank w (.compute (w.complete (.delivered job.zero)))
  | abort {c : Call Block} {calls : List (Call Block)} :
      w.phase = .ready → w.todo = c :: calls →
      w.client.plan job rank w.returned.length c = .abort → Turn job rank w .abort
  | barrier : w.phase = .ready → w.todo = [] →
      Turn job rank w
        (.collective .work
          (if rank = 0 then w.teardown job job.startingRank
          else { w with phase := .leaving job.workerCollectives }))
  | sendData {task : ℕ} {packet : Packet Block} : w.phase = .sending task packet →
      Turn job rank w (.send task .send packet (w.complete .written))
  | receive {posted : Posted Block} {popped : Option SizeT} : w.phase = .awaiting posted popped →
      Turn job rank w
        (.recv (some posted.header.destination) .recv fun _ packet => w.receive popped packet.data)
  | exit {task : ℕ} : w.phase = .exiting task →
      Turn job rank w (.send task .header exitMessage (w.teardown job (task + 1)))
  | leave {comm : Comm} {rest : List Comm} : w.phase = .leaving (comm :: rest) →
      Turn job rank w (.collective comm { w with phase := .leaving rest })
  | stop : w.phase = .leaving [] → Turn job rank w .stop

theorem Worker.turn (job : Job Block) (rank : ℕ) (w : Worker Block) :
    w.Turn job rank (w.action job rank) := by
  unfold Worker.action
  cases hphase : w.phase with
  | ready =>
      cases htodo : w.todo with
      | nil => simpa only [htodo] using Worker.Turn.barrier hphase htodo
      | cons c calls =>
          cases hplan : w.client.plan job rank w.returned.length c with
          | request client posted popped =>
              simpa only [hplan] using Worker.Turn.post hphase htodo hplan
          | emptyRead => simpa only [hplan] using Worker.Turn.emptyRead hphase htodo hplan
          | abort => simpa only [hplan] using Worker.Turn.abort hphase htodo hplan
  | sending task packet => exact .sendData hphase
  | awaiting posted popped => exact .receive hphase
  | exiting task => exact .exit hphase
  | leaving collectives =>
      cases collectives with
      | nil => exact .stop hphase
      | cons comm rest => exact .leave hphase

/-- The actions of an Ocore task, by phase. -/
inductive OcoreTask.Turn (job : Job Block) (rank : ℕ) (v : OcoreTask Block) :
    OcoreAction Block (OcoreTask Block) → Prop
  | poll : v.phase = .polling →
      Turn job rank v (.recv none .header fun source posted => v.accept job rank source posted)
  | store {source : ℕ} {posted : Posted Block} : v.phase = .receiving source posted →
      Turn job rank v
        (.recv (some source) .send fun _ packet => v.serve source posted (some packet.data))
  | reply {source : ℕ} {posted : Posted Block} {data : Block} :
      v.phase = .replying source posted →
      lastStored (headerKey source posted.header.offset) v.requests = some data →
      Turn job rank v
        (.send source .recv { data := data, call := posted.call } (v.serve source posted none))
  | abort {source : ℕ} {posted : Posted Block} :
      v.phase = .replying source posted →
      lastStored (headerKey source posted.header.offset) v.requests = none →
      Turn job rank v .abort
  | leave {comm : Comm} {rest : List Comm} : v.phase = .leaving (comm :: rest) →
      Turn job rank v (.collective comm { v with phase := .leaving rest })
  | stop : v.phase = .leaving [] → Turn job rank v .stop

theorem OcoreTask.turn (job : Job Block) (rank : ℕ) (v : OcoreTask Block) :
    v.Turn job rank (v.action job rank) := by
  unfold OcoreTask.action
  cases hphase : v.phase with
  | polling => exact .poll hphase
  | receiving source posted => exact .store hphase
  | replying source posted =>
      cases hlast : lastStored (headerKey source posted.header.offset) v.requests with
      | none => simpa only [hlast] using OcoreTask.Turn.abort hphase hlast
      | some data => simpa only [hlast] using OcoreTask.Turn.reply hphase hlast
  | leaving collectives =>
      cases collectives with
      | nil => exact .stop hphase
      | cons comm rest => exact .leave hphase

theorem action_worker (hrank : rank < job.startingRank) (task : Task Block) :
    job.system.action rank task =
      Action.map (fun w => { task with worker := w }) (task.worker.action job rank) :=
  if_pos hrank

theorem action_ocore (hlow : job.startingRank ≤ rank) (hhigh : rank < job.nprocs)
    (task : Task Block) :
    job.system.action rank task =
      Action.map (fun v => { task with ocore := v }) (task.ocore.action job rank) := by
  change Task.action job rank task = _
  rw [Task.action, if_neg (by omega), if_pos hhigh]

/-- A rank acts as a worker or as an Ocore task. -/
theorem action_cases (job : Job Block) (rank : ℕ) (task : Task Block) :
    (rank < job.startingRank ∧ ∃ a, task.worker.Turn job rank a ∧
        job.system.action rank task = Action.map (fun w => { task with worker := w }) a) ∨
      (job.startingRank ≤ rank ∧ rank < job.nprocs ∧ ∃ a, task.ocore.Turn job rank a ∧
        job.system.action rank task = Action.map (fun v => { task with ocore := v }) a) ∨
      (job.nprocs ≤ rank ∧ job.system.action rank task = .stop) := by
  rcases Nat.lt_or_ge rank job.startingRank with hrank | hlow
  · exact Or.inl ⟨hrank, _, task.worker.turn job rank, action_worker hrank task⟩
  rcases Nat.lt_or_ge rank job.nprocs with hhigh | hhigh
  · exact Or.inr (Or.inl ⟨hlow, hhigh, _, task.ocore.turn job rank, action_ocore hlow hhigh task⟩)
  · refine Or.inr (Or.inr ⟨hhigh, ?_⟩)
    change Task.action job rank task = _
    rw [Task.action, if_neg (by omega), if_neg (by omega)]

/-! ### Steps -/

/-- The steps of the protocol. -/
inductive Job.Step (job : Job Block) (s : OcoreState Block) : OcoreState Block → Prop
  | post {w : ℕ} {c : Call Block} {calls : List (Call Block)} {client : Client}
      {posted : Posted Block} {popped : Option SizeT} (sync : Bool) :
      w < job.startingRank → System.Ready s w →
      (workerOf s w).phase = .ready → (workerOf s w).todo = c :: calls →
      (workerOf s w).client.plan job w (workerOf s w).returned.length c =
        .request client posted popped →
      Step job s
        (s.afterSend w posted.header.destination .header posted sync
          { s.loc w with worker := (workerOf s w).post client posted popped })
  | emptyRead {w : ℕ} {c : Call Block} {calls : List (Call Block)} :
      w < job.startingRank → System.Ready s w →
      (workerOf s w).phase = .ready → (workerOf s w).todo = c :: calls →
      (workerOf s w).client.plan job w (workerOf s w).returned.length c = .emptyRead →
      Step job s
        (s.afterCompute w
          { s.loc w with worker := (workerOf s w).complete (.delivered job.zero) })
  | abort {w : ℕ} {c : Call Block} {calls : List (Call Block)} :
      w < job.startingRank → System.Ready s w →
      (workerOf s w).phase = .ready → (workerOf s w).todo = c :: calls →
      (workerOf s w).client.plan job w (workerOf s w).returned.length c = .abort →
      Step job s { s with aborted := true }
  | sendData {w task : ℕ} {packet : Packet Block} (sync : Bool) :
      w < job.startingRank → System.Ready s w →
      (workerOf s w).phase = .sending task packet →
      Step job s
        (s.afterSend w task .send packet sync
          { s.loc w with worker := (workerOf s w).complete .written })
  | receive {w source : ℕ} {posted : Posted Block} {popped : Option SizeT}
      {e : Envelope (Packet Block)} {rest : List (Envelope (Packet Block))} :
      w < job.startingRank → System.Ready s w →
      (workerOf s w).phase = .awaiting posted popped → posted.header.destination = source →
      s.chan source w .recv = e :: rest →
      Step job s
        (s.afterRecv w source .recv e.awaited
          { s.loc w with worker := (workerOf s w).receive popped e.msg.data })
  | exit {w task : ℕ} (sync : Bool) :
      w < job.startingRank → System.Ready s w → (workerOf s w).phase = .exiting task →
      Step job s
        (s.afterSend w task .header exitMessage sync
          { s.loc w with worker := (workerOf s w).teardown job (task + 1) })
  | poll {t source : ℕ} {e : Envelope (Posted Block)} {rest : List (Envelope (Posted Block))} :
      job.startingRank ≤ t → t < job.nprocs → System.Ready s t →
      (ocoreOf s t).phase = .polling → s.chan source t .header = e :: rest →
      Step job s
        (s.afterRecv t source .header e.awaited
          { s.loc t with ocore := (ocoreOf s t).accept job t source e.msg })
  | store {t source : ℕ} {posted : Posted Block} {e : Envelope (Packet Block)}
      {rest : List (Envelope (Packet Block))} :
      job.startingRank ≤ t → t < job.nprocs → System.Ready s t →
      (ocoreOf s t).phase = .receiving source posted → s.chan source t .send = e :: rest →
      Step job s
        (s.afterRecv t source .send e.awaited
          { s.loc t with ocore := (ocoreOf s t).serve source posted (some e.msg.data) })
  | reply {t source : ℕ} {posted : Posted Block} {data : Block} (sync : Bool) :
      job.startingRank ≤ t → t < job.nprocs → System.Ready s t →
      (ocoreOf s t).phase = .replying source posted →
      lastStored (headerKey source posted.header.offset) (ocoreOf s t).requests = some data →
      Step job s
        (s.afterSend t source .recv { data := data, call := posted.call } sync
          { s.loc t with ocore := (ocoreOf s t).serve source posted none })
  | ocoreAbort {t source : ℕ} {posted : Posted Block} :
      job.startingRank ≤ t → t < job.nprocs → System.Ready s t →
      (ocoreOf s t).phase = .replying source posted →
      lastStored (headerKey source posted.header.offset) (ocoreOf s t).requests = none →
      Step job s { s with aborted := true }
  | collective {comm : Comm} : job.system.Entered s comm →
      Step job s (job.system.afterCollective s comm)

section Inversion

variable {σ τ : Type} {f : σ → τ} {a : OcoreAction Block σ}

theorem map_eq_send {dest : ℕ} {tag : Tag} {msg : Message Block tag} {next : τ}
    (h : Action.map f a = .send dest tag msg next) :
    ∃ next', a = .send dest tag msg next' ∧ next = f next' := by
  cases a with
  | send dest' tag' msg' next' =>
      cases h
      exact ⟨next', rfl, rfl⟩
  | _ => cases h

theorem map_eq_recv {source : Option ℕ} {tag : Tag} {next : ℕ → Message Block tag → τ}
    (h : Action.map f a = .recv source tag next) :
    ∃ next', a = .recv source tag next' ∧ next = fun p msg => f (next' p msg) := by
  cases a with
  | recv source' tag' next' =>
      cases h
      exact ⟨next', rfl, rfl⟩
  | _ => cases h

theorem map_eq_collective {comm : Comm} {next : τ} (h : Action.map f a = .collective comm next) :
    ∃ next', a = .collective comm next' ∧ next = f next' := by
  cases a with
  | collective comm' next' =>
      cases h
      exact ⟨next', rfl, rfl⟩
  | _ => cases h

theorem map_eq_compute {next : τ} (h : Action.map f a = .compute next) :
    ∃ next', a = .compute next' ∧ next = f next' := by
  cases a with
  | compute next' =>
      cases h
      exact ⟨next', rfl, rfl⟩
  | _ => cases h

theorem map_eq_abort (h : Action.map f a = .abort) : a = .abort := by
  cases a with
  | abort => rfl
  | _ => cases h

end Inversion

/-- Every event is one of the steps. -/
theorem step_of_move (h : System.Move job.system s s') : job.Step s s' := by
  cases h with
  | @send p dest tag msg next sync hready hact =>
      rcases action_cases job p (s.loc p) with
        ⟨hp, a, hturn, heq⟩ | ⟨hlow, hhigh, a, hturn, heq⟩ | ⟨-, heq⟩
      · obtain ⟨next', rfl, rfl⟩ := map_eq_send (heq.symm.trans hact)
        cases hturn with
        | post hphase htodo hplan => exact .post sync hp hready hphase htodo hplan
        | sendData hphase => exact .sendData sync hp hready hphase
        | exit hphase => exact .exit sync hp hready hphase
      · obtain ⟨next', rfl, rfl⟩ := map_eq_send (heq.symm.trans hact)
        cases hturn with
        | reply hphase hlast => exact .reply sync hlow hhigh hready hphase hlast
      · cases heq.symm.trans hact
  | @recv p source from_ tag next e rest hready hact hfrom hchan =>
      rcases action_cases job p (s.loc p) with
        ⟨hp, a, hturn, heq⟩ | ⟨hlow, hhigh, a, hturn, heq⟩ | ⟨-, heq⟩
      · obtain ⟨next', rfl, rfl⟩ := map_eq_recv (heq.symm.trans hact)
        cases hturn with
        | receive hphase =>
            have hsource := Option.some.inj (hfrom.resolve_left (by simp))
            exact .receive hp hready hphase hsource hchan
      · obtain ⟨next', rfl, rfl⟩ := map_eq_recv (heq.symm.trans hact)
        cases hturn with
        | poll hphase => exact .poll hlow hhigh hready hphase hchan
        | store hphase =>
            have hsource := Option.some.inj (hfrom.resolve_left (by simp))
            subst hsource
            exact .store hlow hhigh hready hphase hchan
      · cases heq.symm.trans hact
  | collective hentered => exact .collective hentered
  | @compute p next hready hact =>
      rcases action_cases job p (s.loc p) with
        ⟨hp, a, hturn, heq⟩ | ⟨hlow, hhigh, a, hturn, heq⟩ | ⟨-, heq⟩
      · obtain ⟨next', rfl, rfl⟩ := map_eq_compute (heq.symm.trans hact)
        cases hturn with
        | emptyRead hphase htodo hplan => exact .emptyRead hp hready hphase htodo hplan
      · obtain ⟨next', rfl, rfl⟩ := map_eq_compute (heq.symm.trans hact)
        cases hturn
      · cases heq.symm.trans hact
  | @abort p hready hact =>
      rcases action_cases job p (s.loc p) with
        ⟨hp, a, hturn, heq⟩ | ⟨hlow, hhigh, a, hturn, heq⟩ | ⟨-, heq⟩
      · obtain rfl := map_eq_abort (heq.symm.trans hact)
        cases hturn with
        | abort hphase htodo hplan => exact .abort hp hready hphase htodo hplan
      · obtain rfl := map_eq_abort (heq.symm.trans hact)
        cases hturn with
        | abort hphase hlast => exact .ocoreAbort hlow hhigh hready hphase hlast
      · cases heq.symm.trans hact

/-- What a member of a collective becomes when it completes. -/
theorem passed_eq_some {comm : Comm} {p : ℕ} {task : Task Block}
    (h : job.system.passed s comm p = some task) :
    job.system.action p (s.loc p) = .collective comm task := by
  unfold System.passed at h
  cases hact : job.system.action p (s.loc p) with
  | collective comm' next =>
      simp only [hact, Option.ite_none_right_eq_some, Option.some.injEq] at h
      obtain ⟨rfl, rfl⟩ := h
      rfl
  | _ => simp [hact] at h

theorem loc_afterCollective_of_not_mem {comm : Comm} (h : rank ∉ job.members comm) :
    (job.system.afterCollective s comm).loc rank = s.loc rank :=
  if_neg h

theorem action_of_entered {comm : Comm} (hentered : job.system.Entered s comm)
    (h : rank ∈ job.members comm) :
    System.Ready s rank ∧ job.system.action rank (s.loc rank) =
      .collective comm ((job.system.afterCollective s comm).loc rank) := by
  obtain ⟨hready, hsome⟩ := hentered rank h
  obtain ⟨task, htask⟩ := Option.isSome_iff_exists.mp hsome
  have hloc : (job.system.afterCollective s comm).loc rank = task := by
    change (if rank ∈ job.members comm then _ else _) = task
    rw [if_pos h, htask]
    rfl
  exact ⟨hready, hloc ▸ passed_eq_some htask⟩

/-- A worker takes part in a collective in `Finalize`: the first one it enters is
the barrier of the workers. -/
theorem worker_of_entered {comm : Comm} (hentered : job.system.Entered s comm)
    (h : rank ∈ job.members comm) (hrank : rank < job.startingRank) :
    System.Ready s rank ∧
      (((workerOf s rank).phase = .ready ∧ (workerOf s rank).todo = [] ∧ comm = .work ∧
          (job.system.afterCollective s comm).loc rank =
            { s.loc rank with worker :=
                if rank = 0 then (workerOf s rank).teardown job job.startingRank
                else { workerOf s rank with phase := .leaving job.workerCollectives } }) ∨
        ∃ rest, (workerOf s rank).phase = .leaving (comm :: rest) ∧
          (job.system.afterCollective s comm).loc rank =
            { s.loc rank with worker := { workerOf s rank with phase := .leaving rest } }) := by
  obtain ⟨hready, hact⟩ := action_of_entered hentered h
  rw [action_worker hrank] at hact
  obtain ⟨w, hw, hloc⟩ := map_eq_collective hact
  have hturn := (s.loc rank).worker.turn job rank
  rw [hw] at hturn
  cases hturn with
  | barrier hphase htodo => exact ⟨hready, Or.inl ⟨hphase, htodo, rfl, hloc⟩⟩
  | leave hphase => exact ⟨hready, Or.inr ⟨_, hphase, hloc⟩⟩

theorem ocore_of_entered {comm : Comm} (hentered : job.system.Entered s comm)
    (h : rank ∈ job.members comm) (hlow : job.startingRank ≤ rank) (hhigh : rank < job.nprocs) :
    System.Ready s rank ∧ ∃ rest, (ocoreOf s rank).phase = .leaving (comm :: rest) ∧
      (job.system.afterCollective s comm).loc rank =
        { s.loc rank with ocore := { ocoreOf s rank with phase := .leaving rest } } := by
  obtain ⟨hready, hact⟩ := action_of_entered hentered h
  rw [action_ocore hlow hhigh] at hact
  obtain ⟨v, hv, hloc⟩ := map_eq_collective hact
  have hturn := (s.loc rank).ocore.turn job rank
  rw [hv] at hturn
  cases hturn with
  | leave hphase => exact ⟨hready, _, hphase, hloc⟩

theorem lt_nprocs_of_mem {comm : Comm} (h : rank ∈ job.members comm) : rank < job.nprocs := by
  cases comm with
  | global => exact List.mem_range.mp h
  | work => exact Nat.lt_of_lt_of_le (List.mem_range.mp h) (Nat.le_add_right _ _)
  | ocore =>
      obtain ⟨i, hi, rfl⟩ := List.mem_map.mp h
      have hlt := List.mem_range.mp hi
      rw [Layout.nprocs]
      omega

/-- What holds initially and is kept by every step from a reachable state holds in
every reachable state. -/
theorem Job.Reachable.invariant {I : OcoreState Block → Prop} (hinit : I job.initState)
    (hstep : ∀ s s', job.Reachable s → I s → job.Step s s' → I s') (h : job.Reachable s) : I s :=
  System.Reachable.invariant hinit
    (fun s s' hreach hs _ hmove => hstep s s' hreach hs (step_of_move hmove)) h

end Grvy.Ocore
