import Grvy.Ocore.Simulation

/-!
The order in which the ranks leave.

The workers pass their barrier together. After it the master tells the Ocore
tasks to exit, one after the other; the header of `OCORE_EXIT` is the last one
that a task receives from the master. A task leaves exactly when it takes this
header, and so no task leaves before all workers have passed their barrier.
-/

namespace Grvy.Ocore

open Grvy.Lib
open Grvy.Lib.MessagePassing

variable {Block : Type} {job : Job Block} {s s' : OcoreState Block}

/-! ### Stages of Finalize -/

/-- How far the rank is in telling the Ocore tasks to exit; `none` before the
barrier of the workers. -/
def WorkerPhase.exits (job : Job Block) : WorkerPhase Block → Option ℕ
  | .exiting task => some task
  | .leaving _ => some job.nprocs
  | _ => none

def OcorePhase.hasLeft : OcorePhase Block → Bool
  | .leaving _ => true
  | _ => false

/-- The header queue from the master to one Ocore task. -/
inductive ExitStatus (job : Job Block) (told : Option ℕ) (task : ℕ) (left : Bool)
    (headers : List (Posted Block)) : Prop
  | untold : (∀ k, told = some k → k ≤ task) → left = false →
      (∀ posted ∈ headers, posted.isRequest = true) → ExitStatus job told task left headers
  | told {k : ℕ} {requests : List (Posted Block)} : told = some k → task < k → left = false →
      headers = requests ++ [exitMessage] → (∀ posted ∈ requests, posted.isRequest = true) →
      ExitStatus job told task left headers
  | left {k : ℕ} : told = some k → task < k → left = true → headers = [] →
      ExitStatus job told task left headers

@[simp] theorem isRequest_exitMessage : (exitMessage : Posted Block).isRequest = false := by
  simp [Posted.isRequest, exitMessage]

namespace ExitStatus

variable {told told' : Option ℕ} {task : ℕ} {left : Bool} {headers : List (Posted Block)}
  {posted : Posted Block}

/-- A master that has not passed the barrier may post requests. -/
theorem post (h : ExitStatus job none task left headers) (hrequest : posted.isRequest = true) :
    ExitStatus job none task left (headers ++ [posted]) := by
  cases h with
  | untold _ hleft hheaders =>
      refine .untold (fun k hk => by cases hk) hleft fun posted' hmem => ?_
      rcases List.mem_append.mp hmem with hold | hnew
      · exact hheaders posted' hold
      · rw [List.mem_singleton.mp hnew]
        exact hrequest
  | told htold => cases htold
  | left htold => cases htold

/-- The master tells the next task. -/
theorem exit (h : ExitStatus job (some task) task left headers) :
    ExitStatus job (some (task + 1)) task left (headers ++ [exitMessage]) := by
  cases h with
  | untold _ hleft hheaders => exact .told rfl (Nat.lt_succ_self task) hleft rfl hheaders
  | told htold hlt =>
      obtain rfl := Option.some.inj htold
      omega
  | left htold hlt =>
      obtain rfl := Option.some.inj htold
      omega

/-- The master telling another task makes no difference to this one. -/
theorem exit_of_ne {task' : ℕ} (h : ExitStatus job (some task') task left headers)
    (hne : task ≠ task') : ExitStatus job (some (task' + 1)) task left headers := by
  cases h with
  | untold hle hleft hheaders =>
      refine .untold (fun k hk => ?_) hleft hheaders
      have hle' := hle task' rfl
      obtain rfl := Option.some.inj hk
      omega
  | told htold hlt hleft hqueue hrequests =>
      obtain rfl := Option.some.inj htold
      exact .told rfl (by omega) hleft hqueue hrequests
  | left htold hlt hleft hheaders =>
      obtain rfl := Option.some.inj htold
      exact .left rfl (by omega) hleft hheaders

/-- A task that has not left takes a request, or the header to exit, and then
its queue is empty. -/
theorem take (h : ExitStatus job told task false (posted :: headers)) :
    (posted.isRequest = true ∧ ExitStatus job told task false headers) ∨
      (posted.isRequest = false ∧ ExitStatus job told task true headers) := by
  cases h with
  | untold hle hleft hheaders =>
      refine Or.inl ⟨hheaders posted List.mem_cons_self, .untold hle hleft fun p hp => ?_⟩
      exact hheaders p (List.mem_cons_of_mem _ hp)
  | @told k requests htold hlt hleft hqueue hrequests =>
      cases requests with
      | nil =>
          obtain ⟨rfl, rfl⟩ := List.cons.inj hqueue
          exact Or.inr ⟨isRequest_exitMessage, .left htold hlt rfl rfl⟩
      | cons p requests =>
          obtain ⟨rfl, rfl⟩ := List.cons.inj hqueue
          refine Or.inl ⟨hrequests _ List.mem_cons_self, .told htold hlt hleft rfl fun p hp => ?_⟩
          exact hrequests p (List.mem_cons_of_mem _ hp)
  | left _ _ hleft _ => cases hleft

/-- Only a task that is told to exit has anything but requests in its queue. -/
theorem requests_of_none (h : ExitStatus job none task left headers) :
    left = false ∧ ∀ posted ∈ headers, posted.isRequest = true := by
  cases h with
  | untold _ hleft hheaders => exact ⟨hleft, hheaders⟩
  | told htold => cases htold
  | left htold => cases htold

theorem barrier (h : ExitStatus job none task left headers) {k : ℕ} (hk : k ≤ task) :
    ExitStatus job (some k) task left headers := by
  obtain ⟨hleft, hheaders⟩ := h.requests_of_none
  refine .untold (fun k' hk' => ?_) hleft hheaders
  obtain rfl := Option.some.inj hk'
  exact hk

end ExitStatus

/-! ### The invariant -/

/-- The order of leaving, for the progress of the workers, the tasks that have
left, and the queues of headers. -/
structure ExitOrder (job : Job Block) (exits : ℕ → Option ℕ) (left : ℕ → Bool)
    (headers : ℕ → ℕ → List (Posted Block)) : Prop where
  /-- All workers are past their barrier, or none is. -/
  uniform : ∀ w w', w < job.startingRank → w' < job.startingRank →
    (exits w).isSome → (exits w').isSome
  requests : ∀ w t, w ≠ 0 → ∀ posted ∈ headers w t, posted.isRequest = true
  status : ∀ t, job.startingRank ≤ t → t < job.nprocs →
    ExitStatus job (exits 0) t (left t) (headers 0 t)

/-- The order of leaving in a state. -/
structure Ending (job : Job Block) (s : OcoreState Block) : Prop where
  master : ∀ w task, (workerOf s w).phase = .exiting task →
    w = 0 ∧ job.startingRank ≤ task ∧ task < job.nprocs
  order : ExitOrder job (fun w => (workerOf s w).phase.exits job)
    (fun t => (ocoreOf s t).phase.hasLeft) (fun w t => s.msgs w t .header)

/-- A step that changes nothing that the order depends on. -/
theorem ExitOrder.congr {exits exits' : ℕ → Option ℕ} {left left' : ℕ → Bool}
    {headers headers' : ℕ → ℕ → List (Posted Block)} (h : ExitOrder job exits left headers)
    (hexits : ∀ w, exits' w = exits w) (hleft : ∀ t, left' t = left t)
    (hheaders : ∀ w t, headers' w t = headers w t) : ExitOrder job exits' left' headers' := by
  rw [funext hexits, funext hleft, funext fun w => funext (hheaders w)]
  exact h

namespace ExitOrder

variable {exits exits' : ℕ → Option ℕ} {left : ℕ → Bool} {headers : ℕ → ℕ → List (Posted Block)}
  {w t task source : ℕ} {posted : Posted Block} {rest : List (Posted Block)}

theorem post (h : ExitOrder job exits left headers) (hw : exits w = none)
    (hrequest : posted.isRequest = true) :
    ExitOrder job exits left fun w' t' =>
      if w' = w ∧ t' = t then headers w t ++ [posted] else headers w' t' where
  uniform := h.uniform
  requests w' t' hw' posted' hmem := by
    split at hmem
    · rename_i heq
      rcases List.mem_append.mp hmem with hold | hnew
      · exact h.requests w t (heq.1 ▸ hw') posted' hold
      · rw [List.mem_singleton.mp hnew]
        exact hrequest
    · exact h.requests w' t' hw' posted' hmem
  status t' hlow hhigh := by
    have hstatus := h.status t' hlow hhigh
    split
    · rename_i heq
      obtain ⟨rfl, rfl⟩ := heq
      rw [hw] at hstatus ⊢
      exact hstatus.post hrequest
    · exact hstatus

theorem exit (h : ExitOrder job exits left headers) (hmaster : exits 0 = some task) :
    ExitOrder job (fun w => if w = 0 then some (task + 1) else exits w) left fun w' t' =>
      if w' = 0 ∧ t' = task then headers 0 task ++ [exitMessage] else headers w' t' where
  uniform w w' hw hw' _ := by
    split
    · rfl
    · exact h.uniform 0 w' job.startingRank_pos hw' (by rw [hmaster]; rfl)
  requests w' t' hw' posted' hmem := by
    rw [if_neg fun heq => hw' heq.1] at hmem
    exact h.requests w' t' hw' posted' hmem
  status t' hlow hhigh := by
    have hstatus := h.status t' hlow hhigh
    rw [hmaster] at hstatus
    rw [if_pos rfl]
    split
    · rename_i heq
      obtain ⟨-, rfl⟩ := heq
      exact hstatus.exit
    · rename_i hne
      exact hstatus.exit_of_ne fun heq => hne ⟨rfl, heq⟩

theorem take (h : ExitOrder job exits left headers) (hlow : job.startingRank ≤ t)
    (hhigh : t < job.nprocs) (hleft : left t = false) (hqueue : headers source t = posted :: rest) :
    ExitOrder job exits (fun t' => if t' = t then !posted.isRequest else left t') fun w' t' =>
      if w' = source ∧ t' = t then rest else headers w' t' where
  uniform := h.uniform
  requests w' t' hw' posted' hmem := by
    split at hmem
    · rename_i heq
      obtain ⟨rfl, rfl⟩ := heq
      exact h.requests w' t' hw' posted' (hqueue ▸ List.mem_cons_of_mem _ hmem)
    · exact h.requests w' t' hw' posted' hmem
  status t' hlow' hhigh' := by
    have hstatus := h.status t' hlow' hhigh'
    rcases eq_or_ne t' t with rfl | htask
    · rcases eq_or_ne 0 source with rfl | hsource
      · rw [hqueue, hleft] at hstatus
        rw [if_pos rfl, if_pos ⟨rfl, rfl⟩]
        rcases hstatus.take with ⟨hrequest, hstatus⟩ | ⟨hrequest, hstatus⟩
        · rw [hrequest]
          exact hstatus
        · rw [hrequest]
          exact hstatus
      · -- only the master sends anything but requests
        have hrequest := h.requests source t' hsource.symm posted (hqueue ▸ List.mem_cons_self)
        rw [if_pos rfl, if_neg fun heq => hsource heq.1, hrequest]
        rw [hleft] at hstatus
        exact hstatus
    · rw [if_neg htask, if_neg fun heq => htask heq.2]
      exact hstatus

theorem barrier (h : ExitOrder job exits left headers)
    (hnone : ∀ w < job.startingRank, exits w = none)
    (hsome : ∀ w < job.startingRank, (exits' w).isSome)
    (hmaster : exits' 0 = some job.startingRank) : ExitOrder job exits' left headers where
  uniform _ w' _ hw' _ := hsome w' hw'
  requests := h.requests
  status t hlow hhigh := by
    have hstatus := h.status t hlow hhigh
    rw [hnone 0 job.startingRank_pos] at hstatus
    rw [hmaster]
    exact hstatus.barrier hlow

end ExitOrder

theorem exits_teardown (job : Job Block) {task : ℕ} (htask : task ≤ job.nprocs)
    (w : Worker Block) : (w.teardown job task).phase.exits job = some task := by
  rcases teardown_phase job task w with ⟨heq, hlt⟩ | ⟨heq, hge⟩
  · rw [heq]
    rfl
  · rw [heq, WorkerPhase.exits, Nat.le_antisymm htask hge]

theorem startingRank_lt_nprocs (job : Job Block) : job.startingRank < job.nprocs :=
  Nat.lt_add_of_pos_right job.numOcoreTasks_pos

theorem exits_isSome_iff (job : Job Block) {phase : WorkerPhase Block} :
    (phase.exits job).isSome = true ↔
      (∃ task, phase = .exiting task) ∨ ∃ rest, phase = .leaving rest := by
  cases phase <;> simp [WorkerPhase.exits]

theorem ending_init (job : Job Block) : Ending job job.initState where
  master w task h := by cases h
  order :=
    { uniform := fun _ _ _ _ h => by cases h
      requests := fun _ _ _ _ h => by cases h
      status := fun _ _ _ => .untold (fun _ h => by cases h) rfl fun _ h => by cases h }

/-- A worker that takes a turn before its barrier is not past it afterwards. -/
theorem Ending.of_worker (hs : Ending job s) {w : ℕ} {worker : Worker Block}
    (hloc : s'.loc = Function.update s.loc w { s.loc w with worker := worker })
    (hexits : worker.phase.exits job = (workerOf s w).phase.exits job)
    (hphase : ∀ task, worker.phase ≠ .exiting task)
    (hheaders : ∀ w t, s'.msgs w t .header = s.msgs w t .header) : Ending job s' where
  master w' task h := by
    rw [workerOf_of_worker hloc] at h
    split at h
    · exact absurd h (hphase task)
    · exact hs.master w' task h
  order := by
    refine hs.order.congr (fun w' => ?_) (fun t => ?_) hheaders
    · rw [workerOf_of_worker hloc]
      split
      · rename_i heq
        rw [hexits, heq]
      · rfl
    · rw [ocoreOf_of_worker hloc]

/-- The same for an Ocore task that goes on polling. -/
theorem Ending.of_ocore (hs : Ending job s) {t : ℕ} {v : OcoreTask Block}
    (hloc : s'.loc = Function.update s.loc t { s.loc t with ocore := v })
    (hleft : v.phase.hasLeft = (ocoreOf s t).phase.hasLeft)
    (hheaders : ∀ w t, s'.msgs w t .header = s.msgs w t .header) : Ending job s' where
  master w task h := hs.master w task (workerOf_of_ocore hloc w ▸ h)
  order := by
    refine hs.order.congr (fun w => ?_) (fun t' => ?_) hheaders
    · rw [workerOf_of_ocore hloc]
    · rw [ocoreOf_of_ocore hloc]
      split
      · rename_i heq
        rw [hleft, heq]
      · rfl

theorem post_phase (w : Worker Block) (client : Client) (posted : Posted Block)
    (popped : Option SizeT) :
    (∃ task packet, (w.post client posted popped).phase = .sending task packet) ∨
      (w.post client posted popped).phase = .awaiting posted popped := by
  cases hpay : posted.payload with
  | some packet => exact Or.inl ⟨posted.header.destination, packet, by simp [Worker.post, hpay]⟩
  | none => exact Or.inr (by simp [Worker.post, hpay])

/-- The workers enter their barrier together. -/
theorem Ending.exits_of_barrier (hs : Ending job s) {w : ℕ} (hw : w < job.startingRank)
    (hphase : (workerOf s w).phase = .ready) :
    ∀ w' < job.startingRank, (workerOf s w').phase.exits job = none := by
  intro w' hw'
  cases hexits : (workerOf s w').phase.exits job with
  | none => rfl
  | some k =>
      have hsome := hs.order.uniform w' w hw' hw (by rw [hexits]; rfl)
      rw [hphase] at hsome
      cases hsome

/-- The workers pass their barrier together. -/
theorem Ending.passed (hs : Ending job s) (hentered : job.system.Entered s .work)
    (hready : (workerOf s 0).phase = .ready) {w : ℕ} (hw : w < job.startingRank) :
    workerOf (job.system.afterCollective s .work) w =
      if w = 0 then (workerOf s w).teardown job job.startingRank
      else { workerOf s w with phase := .leaving job.workerCollectives } := by
  obtain ⟨-, ⟨-, -, -, hloc⟩ | ⟨rest, hphase, -⟩⟩ :=
    worker_of_entered hentered (List.mem_range.mpr hw) hw
  · rw [workerOf, hloc]
  · have hcontra := hs.exits_of_barrier job.startingRank_pos hready w hw
    rw [hphase] at hcontra
    cases hcontra

/-- Where the master is past the barrier, no worker is about to enter it. -/
theorem Ending.not_barrier (hs : Ending job s) {comm : Comm} (hentered : job.system.Entered s comm)
    (hnot : ¬(comm = .work ∧ (workerOf s 0).phase = .ready)) {w : ℕ} (hw : w < job.startingRank) :
    ¬(comm = .work ∧ (workerOf s w).phase = .ready) := by
  rintro ⟨rfl, hready⟩
  obtain ⟨-, ⟨hready', -⟩ | ⟨rest, hleaving, -⟩⟩ := worker_of_entered hentered
    (List.mem_range.mpr job.startingRank_pos) job.startingRank_pos
  · exact hnot ⟨rfl, hready'⟩
  · have hcontra := hs.exits_of_barrier hw hready 0 job.startingRank_pos
    rw [hleaving] at hcontra
    cases hcontra

theorem hasLeft_afterCollective {comm : Comm} (hentered : job.system.Entered s comm) (t : ℕ) :
    (ocoreOf (job.system.afterCollective s comm) t).phase.hasLeft =
      (ocoreOf s t).phase.hasLeft := by
  rcases ocore_afterCollective hentered t with heq | ⟨rest, hphase, heq⟩
  · rw [heq]
  · rw [heq, hphase]
    rfl

/-- After the barrier the master starts with the first Ocore task. -/
theorem Ending.afterBarrier (hs : Ending job s) (hentered : job.system.Entered s .work)
    (hready : (workerOf s 0).phase = .ready) :
    Ending job (job.system.afterCollective s .work) := by
  have hexits := exits_teardown job (Nat.le_of_lt (startingRank_lt_nprocs job))
  refine ⟨fun w task h => ?_, ?_⟩
  · rcases Nat.lt_or_ge w job.startingRank with hw | hw
    · rw [hs.passed hentered hready hw] at h
      split at h
      · rename_i hzero
        rcases teardown_phase job job.startingRank (workerOf s w) with ⟨heq, hlt⟩ | ⟨-, hge⟩
        · rw [heq] at h
          cases h
          exact ⟨hzero, Nat.le_refl _, hlt⟩
        · exact absurd (startingRank_lt_nprocs job) (by omega)
      · cases h
    · have hsame : workerOf (job.system.afterCollective s .work) w = workerOf s w := by
        rw [workerOf, loc_afterCollective_of_not_mem]
        · rfl
        · exact fun hmem => absurd (List.mem_range.mp hmem) (by omega)
      exact hs.master w task (hsame ▸ h)
  · refine (hs.order.barrier (hs.exits_of_barrier job.startingRank_pos hready)
      (fun w hw => ?_) ?_).congr (fun _ => rfl) (hasLeft_afterCollective hentered) fun _ _ => rfl
    · rw [hs.passed hentered hready hw]
      split
      · rw [hexits]
        rfl
      · rfl
    · rw [hs.passed hentered hready job.startingRank_pos, if_pos rfl]
      exact hexits _

theorem Ending.collective (hs : Ending job s) {comm : Comm}
    (hentered : job.system.Entered s comm) : Ending job (job.system.afterCollective s comm) := by
  by_cases hbarrier : comm = .work ∧ (workerOf s 0).phase = .ready
  · obtain ⟨rfl, hready⟩ := hbarrier
    exact hs.afterBarrier hentered hready
  -- past the barrier a worker only goes on to the next collective
  have hsame : ∀ w, (workerOf (job.system.afterCollective s comm) w).phase =
      (workerOf s w).phase ∨ ∃ rest, (workerOf s w).phase = .leaving (comm :: rest) ∧
        (workerOf (job.system.afterCollective s comm) w).phase = .leaving rest := by
    intro w
    rcases worker_afterCollective hentered w with
      heq | ⟨hw, hphase, -, hcomm, -⟩ | ⟨rest, hphase, heq⟩
    · exact Or.inl (by rw [heq])
    · exact absurd ⟨hcomm, hphase⟩ (hs.not_barrier hentered hbarrier hw)
    · exact Or.inr ⟨rest, hphase, by rw [heq]⟩
  refine ⟨fun w task h => ?_,
    hs.order.congr (fun w => ?_) (hasLeft_afterCollective hentered) fun _ _ => rfl⟩
  · rcases hsame w with heq | ⟨rest, -, heq⟩
    · exact hs.master w task (heq ▸ h)
    · rw [heq] at h
      cases h
  · rcases hsame w with heq | ⟨rest, hphase, heq⟩
    · rw [heq]
    · rw [heq, hphase]
      rfl

theorem Ending.step (hs : Ending job s) (hconv : Conversing s) (h : job.Step s s') :
    Ending job s' := by
  cases h with
  | @post w c calls client posted popped sync hw hready hphase htodo hplan =>
      have hnone : (workerOf s w).phase.exits job = none := by rw [hphase]; rfl
      have hphase' : ((workerOf s w).post client posted popped).phase.exits job = none ∧
          ∀ task, ((workerOf s w).post client posted popped).phase ≠ .exiting task := by
        rcases post_phase (workerOf s w) client posted popped with ⟨task, packet, heq⟩ | heq
        · rw [heq]
          exact ⟨rfl, fun _ hc => by cases hc⟩
        · rw [heq]
          exact ⟨rfl, fun _ hc => by cases hc⟩
      have hrequest : posted.isRequest = true :=
        decide_eq_true (Client.planned_of_plan hplan).2.1
      refine ⟨fun w' task hexit => ?_, ?_⟩
      · rw [workerOf_of_worker rfl] at hexit
        split at hexit
        · exact absurd hexit (hphase'.2 task)
        · exact hs.master w' task hexit
      · refine (hs.order.post (t := posted.header.destination) hnone hrequest).congr
          (fun w' => ?_) (fun t => ?_) fun w' t => ?_
        · rw [workerOf_of_worker rfl]
          split
          · rename_i heq
            rw [hphase'.1, heq, hnone]
          · rfl
        · rw [ocoreOf_of_worker rfl]
        · exact State.msgs_afterSend ..
  | emptyRead hw hready hphase htodo hplan =>
      exact hs.of_worker rfl (by rw [hphase]; rfl) (fun _ hc => by cases hc) fun _ _ => rfl
  | sendData sync hw hready hphase =>
      exact hs.of_worker rfl (by rw [hphase]; rfl) (fun _ hc => by cases hc) fun _ _ =>
        State.msgs_afterSend_of_ne _ _ _ _ _ _ _ (by decide) _ _
  | receive hw hready hphase hdest hchan =>
      exact hs.of_worker rfl (by rw [hphase]; rfl) (fun _ hc => by cases hc) fun _ _ =>
        State.msgs_afterRecv_of_ne _ _ _ _ _ _ _ (by decide) _
  | @exit w task sync hw hready hphase =>
      obtain ⟨rfl, hlow, hhigh⟩ := hs.master w task hphase
      refine ⟨fun w' task' hexit => ?_, ?_⟩
      · rw [workerOf_of_worker rfl] at hexit
        split at hexit
        · rename_i heq
          rcases teardown_phase job (task + 1) (workerOf s 0) with ⟨heq', hlt⟩ | ⟨heq', -⟩
          · rw [heq'] at hexit
            cases hexit
            exact ⟨heq, by omega, hlt⟩
          · rw [heq'] at hexit
            cases hexit
        · exact hs.master w' task' hexit
      · have hmaster : (workerOf s 0).phase.exits job = some task := by rw [hphase]; rfl
        refine (hs.order.exit hmaster).congr (fun w' => ?_) (fun t => ?_) fun w' t => ?_
        · rw [workerOf_of_worker rfl]
          split
          · exact exits_teardown job hhigh _
          · rfl
        · rw [ocoreOf_of_worker rfl]
        · exact State.msgs_afterSend ..
  | @poll t source e rest hlow hhigh hready hphase hchan =>
      have hqueue := msgs_eq_cons hchan
      have hleft : (ocoreOf s t).phase.hasLeft = false := by rw [hphase]; rfl
      have haccept : ((ocoreOf s t).accept job t source e.msg).phase.hasLeft =
          !e.msg.isRequest := by
        rcases accept_phase job (ocoreOf s t) source
          (hconv.addressed source t e.msg (mem_header_of_chan hchan)) with
          ⟨hrequest, heq⟩ | ⟨hrequest, -, heq⟩ | ⟨hrequest, -, heq⟩
        all_goals
          rw [heq, hrequest]
          rfl
      refine ⟨fun w task h => ?_, ?_⟩
      · rw [workerOf_of_ocore rfl] at h
        exact hs.master w task h
      refine (hs.order.take hlow hhigh hleft hqueue).congr (fun w => ?_) (fun t' => ?_)
        fun w t' => ?_
      · rw [workerOf_of_ocore rfl]
      · rw [ocoreOf_of_ocore rfl]
        split
        · exact haccept
        · rfl
      · exact State.msgs_afterRecv ..
  | store hlow hhigh hready hphase hchan =>
      exact hs.of_ocore rfl (by rw [hphase]; rfl) fun _ _ =>
        State.msgs_afterRecv_of_ne _ _ _ _ _ _ _ (by decide) _
  | reply sync hlow hhigh hready hphase hlast =>
      exact hs.of_ocore rfl (by rw [hphase]; rfl) fun _ _ =>
        State.msgs_afterSend_of_ne _ _ _ _ _ _ _ (by decide) _ _
  | abort _ _ _ _ _ => exact ⟨hs.master, hs.order⟩
  | ocoreAbort _ _ _ _ _ => exact ⟨hs.master, hs.order⟩
  | collective hentered => exact hs.collective hentered

/-- In every reachable state the ranks leave in order. -/
theorem Job.Reachable.ending (h : job.Reachable s) : Ending job s :=
  h.invariant (ending_init job) fun _ _ hreach hs hstep => hs.step hreach.conversing hstep

end Grvy.Ocore
