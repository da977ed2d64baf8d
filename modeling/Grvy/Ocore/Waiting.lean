import Grvy.Ocore.ExitOrder

/-!
What a rank can be blocked in.

A blocking send keeps its task from taking its next turn. A worker can only be
blocked in the message it has just sent, and an Ocore task only in an answer,
so a receiver can be named for every rank that is blocked. In `Finalize` the
ranks go through their collectives in step.
-/

namespace Grvy.Ocore

open Grvy.Lib
open Grvy.Lib.MessagePassing

variable {Block : Type} {job : Job Block} {s s' : OcoreState Block}

/-! ### Blocking sends -/

/-- The sends that a worker may be blocked in. -/
def WorkerPhase.MayWait (job : Job Block) (rank : ℕ) (phase : WorkerPhase Block)
    (pending : Option (ℕ × Tag)) : Prop :=
  ∀ dest tag, pending = some (dest, tag) →
    job.startingRank ≤ dest ∧ dest < job.nprocs ∧
      match phase with
      | .ready => tag = .send
      | .sending task _ => tag = .header ∧ dest = task
      | .awaiting posted _ => tag = .header ∧ dest = posted.header.destination
      | .exiting _ => tag = .header ∧ rank = 0
      | .leaving _ => tag = .header ∧ rank = 0

/-- The sends that an Ocore task may be blocked in. -/
def OcorePhase.MayWait (job : Job Block) (phase : OcorePhase Block)
    (pending : Option (ℕ × Tag)) : Prop :=
  ∀ dest tag, pending = some (dest, tag) →
    dest < job.startingRank ∧ tag = .recv ∧ phase = .polling

structure Waiting (job : Job Block) (s : OcoreState Block) : Prop where
  worker : ∀ w < job.startingRank, (workerOf s w).phase.MayWait job w (s.pending w)
  ocore : ∀ t, job.startingRank ≤ t → t < job.nprocs →
    (ocoreOf s t).phase.MayWait job (s.pending t)

theorem mayWait_of_ready {rank rank' : ℕ} (phase : WorkerPhase Block)
    (h : System.Ready s rank) : phase.MayWait job rank' (s.pending rank) := by
  intro dest tag hpending
  cases h.symm.trans hpending

theorem mayWait_of_ready_ocore {rank : ℕ} (phase : OcorePhase Block)
    (h : System.Ready s rank) : phase.MayWait job (s.pending rank) := by
  intro dest tag hpending
  cases h.symm.trans hpending

section Pending

variable {p q dest source : ℕ} {tag : Tag} {msg : Message Block tag} {next : Task Block}

theorem pending_afterSend_of_ne {sync : Bool} (hq : q ≠ p) :
    (s.afterSend p dest tag msg sync next).pending q = s.pending q := by
  cases sync with
  | false => rfl
  | true => exact Function.update_of_ne hq _ _

/-- A task that was not blocked can only be blocked in the message it sends. -/
theorem eq_of_pending_afterSend {sync : Bool} (hready : System.Ready s p) {e : ℕ × Tag}
    (h : (s.afterSend p dest tag msg sync next).pending p = some e) : e = (dest, tag) := by
  cases sync with
  | false => cases hready.symm.trans h
  | true =>
      have hself : (s.afterSend p dest tag msg true next).pending p = some (dest, tag) :=
        Function.update_self ..
      exact (Option.some.inj (hself.symm.trans h)).symm

theorem pending_afterRecv (awaited : Bool) :
    (s.afterRecv p source tag awaited next).pending q = s.pending q ∨
      (s.afterRecv p source tag awaited next).pending q = none := by
  cases awaited with
  | false => exact Or.inl rfl
  | true =>
      rcases eq_or_ne q source with rfl | hq
      · exact Or.inr (Function.update_self ..)
      · exact Or.inl (Function.update_of_ne hq _ _)

end Pending

section Turns

variable {rank source dest : ℕ} {tag : Tag} {msg : Message Block tag} {w : Worker Block}
  {v : OcoreTask Block}

theorem Waiting.sendWorker (hs : Waiting job s) (hrank : rank < job.startingRank)
    (hready : System.Ready s rank) (sync : Bool)
    (hmay : w.phase.MayWait job rank (some (dest, tag))) :
    Waiting job (s.afterSend rank dest tag msg sync { s.loc rank with worker := w }) where
  worker w' hw' := by
    rw [workerOf_of_worker rfl]
    split
    · rename_i heq
      subst heq
      intro dest' tag' hpending
      exact hmay dest' tag' (congrArg some (eq_of_pending_afterSend hready hpending).symm)
    · rename_i hne
      rw [pending_afterSend_of_ne hne]
      exact hs.worker w' hw'
  ocore t hlow hhigh := by
    rw [ocoreOf_of_worker rfl, pending_afterSend_of_ne (by omega)]
    exact hs.ocore t hlow hhigh

theorem Waiting.sendOcore (hs : Waiting job s) (hlow : job.startingRank ≤ rank)
    (hready : System.Ready s rank) (sync : Bool)
    (hmay : v.phase.MayWait job (some (dest, tag))) :
    Waiting job (s.afterSend rank dest tag msg sync { s.loc rank with ocore := v }) where
  worker w' hw' := by
    rw [workerOf_of_ocore rfl, pending_afterSend_of_ne (by omega)]
    exact hs.worker w' hw'
  ocore t hlow' hhigh' := by
    rw [ocoreOf_of_ocore rfl]
    split
    · rename_i heq
      subst heq
      intro dest' tag' hpending
      exact hmay dest' tag' (congrArg some (eq_of_pending_afterSend hready hpending).symm)
    · rename_i hne
      rw [pending_afterSend_of_ne hne]
      exact hs.ocore t hlow' hhigh'

theorem WorkerPhase.MayWait.afterRecv {phase : WorkerPhase Block} {p q : ℕ} {next : Task Block}
    (h : phase.MayWait job rank (s.pending q)) (awaited : Bool) :
    phase.MayWait job rank ((s.afterRecv p source tag awaited next).pending q) := by
  rcases pending_afterRecv (s := s) (p := p) awaited with heq | hnone
  · rw [heq]
    exact h
  · rw [hnone]
    intro dest tag hpending
    cases hpending

theorem OcorePhase.MayWait.afterRecv {phase : OcorePhase Block} {p q : ℕ} {next : Task Block}
    (h : phase.MayWait job (s.pending q)) (awaited : Bool) :
    phase.MayWait job ((s.afterRecv p source tag awaited next).pending q) := by
  rcases pending_afterRecv (s := s) (p := p) awaited with heq | hnone
  · rw [heq]
    exact h
  · rw [hnone]
    intro dest tag hpending
    cases hpending

theorem Waiting.recvWorker (hs : Waiting job s) (hready : System.Ready s rank) (awaited : Bool) :
    Waiting job (s.afterRecv rank source tag awaited { s.loc rank with worker := w }) where
  worker w' hw' := by
    rw [workerOf_of_worker rfl]
    split
    · rename_i heq
      subst heq
      exact (mayWait_of_ready _ hready).afterRecv awaited
    · exact (hs.worker w' hw').afterRecv awaited
  ocore t hlow hhigh := by
    rw [ocoreOf_of_worker rfl]
    exact (hs.ocore t hlow hhigh).afterRecv awaited

theorem Waiting.recvOcore (hs : Waiting job s) (hready : System.Ready s rank) (awaited : Bool) :
    Waiting job (s.afterRecv rank source tag awaited { s.loc rank with ocore := v }) where
  worker w' hw' := by
    rw [workerOf_of_ocore rfl]
    exact (hs.worker w' hw').afterRecv awaited
  ocore t hlow hhigh := by
    rw [ocoreOf_of_ocore rfl]
    split
    · rename_i heq
      subst heq
      exact (mayWait_of_ready_ocore _ hready).afterRecv awaited
    · exact (hs.ocore t hlow hhigh).afterRecv awaited

end Turns

/-- A task works for a worker. -/
theorem Job.Reachable.source_lt (hreach : job.Reachable s) {t source : ℕ} {posted : Posted Block}
    (hbusy : (ocoreOf s t).busyFor source = some posted) : source < job.startingRank := by
  rcases Nat.lt_or_ge source job.startingRank with hlt | hge
  · exact hlt
  · have hissued := Link.issued_eq_of_busy (hreach.conversing.link source t) hbusy
    have hnone : (linkOf s source t).issued = [] := by
      change issuedTo t (workerOf s source).issued = []
      rw [hreach.workerOf_of_ge hge]
      rfl
    rw [hnone] at hissued
    simp at hissued

theorem Waiting.step (hs : Waiting job s) (hreach : job.Reachable s) (h : job.Step s s') :
    Waiting job s' := by
  cases h with
  | @post w c calls client posted popped sync hw hready hphase htodo hplan =>
      obtain ⟨ss, hfollow⟩ := hreach.following w
      have hclient := (hfollow.of_ready hphase).1
      have hranged : (workerOf s w).client.Ranged job.toLayout := hclient ▸ hfollow.sound.ranged
      obtain ⟨hlow, hhigh⟩ := hranged.destination hplan
      refine hs.sendWorker hw hready sync fun dest tag hpending => ?_
      cases hpending
      refine ⟨hlow, hhigh, ?_⟩
      cases hpay : posted.payload <;> simp [Worker.post, hpay]
  | @emptyRead w c calls hw hready hphase htodo hplan =>
      refine ⟨fun w' hw' => ?_, fun t hlow hhigh => ?_⟩
      · rw [workerOf_of_worker rfl]
        split
        · rename_i heq
          subst heq
          exact mayWait_of_ready _ hready
        · exact hs.worker w' hw'
      · rw [ocoreOf_of_worker rfl]
        exact hs.ocore t hlow hhigh
  | @sendData w task packet sync hw hready hphase =>
      obtain ⟨ss, hfollow⟩ := hreach.following w
      obtain ⟨posted, ⟨⟨c, calls, -, hplan⟩, -⟩, -, rfl⟩ := hfollow.of_sending hphase
      obtain ⟨hlow, hhigh⟩ := hfollow.sound.ranged.destination hplan
      refine hs.sendWorker hw hready sync fun dest tag hpending => ?_
      cases hpending
      exact ⟨hlow, hhigh, rfl⟩
  | receive hw hready hphase hdest hchan => exact hs.recvWorker hready _
  | @exit w task sync hw hready hphase =>
      obtain ⟨rfl, hlow, hhigh⟩ := hreach.ending.master w task hphase
      refine hs.sendWorker hw hready sync fun dest tag hpending => ?_
      cases hpending
      rcases teardown_phase job (task + 1) (workerOf s 0) with ⟨heq, -⟩ | ⟨heq, -⟩
      · rw [heq]
        exact ⟨hlow, hhigh, rfl, rfl⟩
      · rw [heq]
        exact ⟨hlow, hhigh, rfl, rfl⟩
  | poll hlow hhigh hready hphase hchan => exact hs.recvOcore hready _
  | store hlow hhigh hready hphase hchan => exact hs.recvOcore hready _
  | @reply t source posted data sync hlow hhigh hready hphase hlast =>
      have hbusy : (ocoreOf s t).busyFor source = some posted := by
        rw [busyFor_of_replying hphase, if_pos rfl]
      refine hs.sendOcore hlow hready sync fun dest tag hpending => ?_
      cases hpending
      exact ⟨hreach.source_lt hbusy, rfl, rfl⟩
  | abort _ _ _ _ _ => exact ⟨hs.worker, hs.ocore⟩
  | ocoreAbort _ _ _ _ _ => exact ⟨hs.worker, hs.ocore⟩
  | @collective comm hentered =>
      refine ⟨fun w hw => ?_, fun t hlow hhigh => ?_⟩
      · by_cases hmem : w ∈ job.members comm
        · exact mayWait_of_ready _ (action_of_entered hentered hmem).1
        · rw [workerOf, loc_afterCollective_of_not_mem hmem]
          exact hs.worker w hw
      · by_cases hmem : t ∈ job.members comm
        · exact mayWait_of_ready_ocore _ (action_of_entered hentered hmem).1
        · rw [ocoreOf, loc_afterCollective_of_not_mem hmem]
          exact hs.ocore t hlow hhigh

theorem Job.Reachable.waiting (h : job.Reachable s) : Waiting job s := by
  refine h.invariant ⟨fun w hw dest tag hpending => ?_, fun t hlow hhigh dest tag hpending => ?_⟩
    fun _ _ hreach hs hstep => hs.step hreach hstep
  · cases hpending
  · cases hpending

/-! ### Collectives in step -/

/-- All ranks are past their last message. -/
structure AllLeaving (job : Job Block) (s : OcoreState Block) : Prop where
  worker : ∀ w < job.startingRank, ∃ rest, (workerOf s w).phase = .leaving rest
  ocore : ∀ t, job.startingRank ≤ t → t < job.nprocs →
    ∃ rest, (ocoreOf s t).phase = .leaving rest

/-- The workers in `Finalize` have the collectives `lw` before them and the Ocore
tasks have `ls`: all of theirs as long as some rank is not there. -/
structure InStep (job : Job Block) (s : OcoreState Block) (lw ls : List Comm) : Prop where
  worker : ∀ w < job.startingRank, ∀ rest, (workerOf s w).phase = .leaving rest → rest = lw
  ocore : ∀ t, job.startingRank ≤ t → t < job.nprocs → ∀ rest,
    (ocoreOf s t).phase = .leaving rest → rest = ls
  worker_comm : .ocore ∉ lw
  ocore_comm : .work ∉ ls
  global : lw.count .global = ls.count .global
  start : AllLeaving job s ∨ (lw = job.workerCollectives ∧ ls = job.ocoreCollectives)

theorem workerCollectives_spec (job : Job Block) :
    .ocore ∉ job.workerCollectives ∧ .work ∉ job.ocoreCollectives ∧
      job.workerCollectives.count .global = job.ocoreCollectives.count .global := by
  rw [Job.workerCollectives, Job.ocoreCollectives]
  cases job.mpiInitializedByOcore <;> cases job.dumpStats <;>
    simp [List.mem_replicate, List.count_replicate]

/-- As long as some rank is not past its last message, those that are have all
collectives before them. -/
theorem inStep_full
    (hworker : ∀ w < job.startingRank, ∀ rest, (workerOf s w).phase = .leaving rest →
      rest = job.workerCollectives)
    (hocore : ∀ t, job.startingRank ≤ t → t < job.nprocs → ∀ rest,
      (ocoreOf s t).phase = .leaving rest → rest = job.ocoreCollectives) :
    InStep job s job.workerCollectives job.ocoreCollectives := by
  obtain ⟨hcomm, hcomm', hglobal⟩ := workerCollectives_spec job
  exact ⟨hworker, hocore, hcomm, hcomm', hglobal, Or.inr ⟨rfl, rfl⟩⟩

theorem InStep.full {lw ls : List Comm} (hs : InStep job s lw ls) (hnot : ¬AllLeaving job s) :
    (∀ w < job.startingRank, ∀ rest, (workerOf s w).phase = .leaving rest →
        rest = job.workerCollectives) ∧
      ∀ t, job.startingRank ≤ t → t < job.nprocs → ∀ rest,
        (ocoreOf s t).phase = .leaving rest → rest = job.ocoreCollectives := by
  obtain ⟨rfl, rfl⟩ := hs.start.resolve_left hnot
  exact ⟨hs.worker, hs.ocore⟩

theorem InStep.afterAbort {lw ls : List Comm} (hs : InStep job s lw ls) :
    InStep job { s with aborted := true } lw ls :=
  ⟨hs.worker, hs.ocore, hs.worker_comm, hs.ocore_comm, hs.global,
    hs.start.imp_left fun hall => ⟨hall.worker, hall.ocore⟩⟩

/-- A turn of a worker that is not past its last message. -/
theorem InStep.ofWorker {lw ls : List Comm} (hs : InStep job s lw ls) {rank : ℕ}
    {w : Worker Block} (hloc : s'.loc = Function.update s.loc rank { s.loc rank with worker := w })
    (hrank : rank < job.startingRank) (hnot : ∀ rest, (workerOf s rank).phase ≠ .leaving rest)
    (hw : ∀ rest, w.phase = .leaving rest → rest = job.workerCollectives) :
    ∃ lw ls, InStep job s' lw ls := by
  have hfull := hs.full fun hall => by
    obtain ⟨rest, hrest⟩ := hall.worker rank hrank
    exact hnot rest hrest
  refine ⟨_, _, inStep_full (fun w' hw' rest hphase => ?_) fun t hlow hhigh rest hphase => ?_⟩
  · rw [workerOf_of_worker hloc] at hphase
    split at hphase
    · exact hw rest hphase
    · exact hfull.1 w' hw' rest hphase
  · rw [ocoreOf_of_worker hloc] at hphase
    exact hfull.2 t hlow hhigh rest hphase

theorem InStep.ofOcore {lw ls : List Comm} (hs : InStep job s lw ls) {rank : ℕ}
    {v : OcoreTask Block}
    (hloc : s'.loc = Function.update s.loc rank { s.loc rank with ocore := v })
    (hlow : job.startingRank ≤ rank) (hhigh : rank < job.nprocs)
    (hnot : ∀ rest, (ocoreOf s rank).phase ≠ .leaving rest)
    (hv : ∀ rest, v.phase = .leaving rest → rest = job.ocoreCollectives) :
    ∃ lw ls, InStep job s' lw ls := by
  have hfull := hs.full fun hall => by
    obtain ⟨rest, hrest⟩ := hall.ocore rank hlow hhigh
    exact hnot rest hrest
  refine ⟨_, _, inStep_full (fun w hw rest hphase => ?_) fun t hlow' hhigh' rest hphase => ?_⟩
  · rw [workerOf_of_ocore hloc] at hphase
    exact hfull.1 w hw rest hphase
  · rw [ocoreOf_of_ocore hloc] at hphase
    split at hphase
    · exact hv rest hphase
    · exact hfull.2 t hlow' hhigh' rest hphase

section Collectives

variable {lw ls : List Comm} {comm : Comm}

theorem mem_ocore_iff {t : ℕ} :
    t ∈ job.members .ocore ↔ job.startingRank ≤ t ∧ t < job.nprocs := by
  constructor
  · intro hmem
    obtain ⟨i, hi, rfl⟩ := List.mem_map.mp hmem
    have hlt := List.mem_range.mp hi
    rw [Layout.nprocs]
    omega
  · rintro ⟨hlow, hhigh⟩
    rw [Layout.nprocs] at hhigh
    exact List.mem_map.mpr ⟨t - job.startingRank, List.mem_range.mpr (by omega), by omega⟩

/-- Members of a collective other than the barrier of the workers have it first
in their list and go on to the rest. -/
theorem worker_leaves (hentered : job.system.Entered s comm) {w : ℕ} (hw : w < job.startingRank)
    (hmem : w ∈ job.members comm) (hnot : ¬(comm = .work ∧ (workerOf s w).phase = .ready)) :
    ∃ rest, (workerOf s w).phase = .leaving (comm :: rest) ∧
      (workerOf (job.system.afterCollective s comm) w).phase = .leaving rest := by
  obtain ⟨-, ⟨hready, -, rfl, -⟩ | ⟨rest, hphase, hloc⟩⟩ := worker_of_entered hentered hmem hw
  · exact absurd ⟨rfl, hready⟩ hnot
  · exact ⟨rest, hphase, by rw [workerOf, hloc]⟩

theorem ocore_leaves (hentered : job.system.Entered s comm) {t : ℕ} (hlow : job.startingRank ≤ t)
    (hhigh : t < job.nprocs) (hmem : t ∈ job.members comm) :
    ∃ rest, (ocoreOf s t).phase = .leaving (comm :: rest) ∧
      (ocoreOf (job.system.afterCollective s comm) t).phase = .leaving rest := by
  obtain ⟨-, rest, hphase, hloc⟩ := ocore_of_entered hentered hmem hlow hhigh
  exact ⟨rest, hphase, by rw [ocoreOf, hloc]⟩

/-- The first collective of all is a global one. -/
theorem InStep.allLeaving_of_work {rest : List Comm} (hs : InStep job s (.work :: rest) ls) :
    AllLeaving job s :=
  hs.start.resolve_right fun hfull => by cases hfull.1

theorem InStep.allLeaving_of_ocore {rest : List Comm} (hs : InStep job s lw (.ocore :: rest)) :
    AllLeaving job s :=
  hs.start.resolve_right fun hfull => by cases hfull.2

theorem InStep.afterGlobal (hs : InStep job s lw ls) (hentered : job.system.Entered s .global) :
    ∃ lw ls, InStep job (job.system.afterCollective s .global) lw ls := by
  have hworker : ∀ w < job.startingRank, ∃ rest, (workerOf s w).phase = .leaving (.global :: rest) ∧
      (workerOf (job.system.afterCollective s .global) w).phase = .leaving rest := fun w hw =>
    worker_leaves hentered hw
      (List.mem_range.mpr (Nat.lt_trans hw (startingRank_lt_nprocs job))) (by simp)
  have hocore : ∀ t, job.startingRank ≤ t → t < job.nprocs →
      ∃ rest, (ocoreOf s t).phase = .leaving (.global :: rest) ∧
        (ocoreOf (job.system.afterCollective s .global) t).phase = .leaving rest :=
    fun t hlow hhigh => ocore_leaves hentered hlow hhigh (List.mem_range.mpr hhigh)
  obtain ⟨lw', hlw, -⟩ := hworker 0 job.startingRank_pos
  obtain rfl := hs.worker 0 job.startingRank_pos _ hlw
  obtain ⟨ls', hls, -⟩ := hocore job.startingRank (Nat.le_refl _) (startingRank_lt_nprocs job)
  obtain rfl := hs.ocore job.startingRank (Nat.le_refl _) (startingRank_lt_nprocs job) _ hls
  refine ⟨lw', ls', fun w hw rest hphase => ?_, fun t hlow hhigh rest hphase => ?_,
    fun hmem => hs.worker_comm (List.mem_cons_of_mem _ hmem),
    fun hmem => hs.ocore_comm (List.mem_cons_of_mem _ hmem), ?_, Or.inl ⟨?_, ?_⟩⟩
  · obtain ⟨rest', hbefore, hafter⟩ := hworker w hw
    rw [hafter] at hphase
    cases hphase
    exact (List.cons.inj (hs.worker w hw _ hbefore)).2
  · obtain ⟨rest', hbefore, hafter⟩ := hocore t hlow hhigh
    rw [hafter] at hphase
    cases hphase
    exact (List.cons.inj (hs.ocore t hlow hhigh _ hbefore)).2
  · have hglobal := hs.global
    rw [List.count_cons_self, List.count_cons_self] at hglobal
    omega
  · intro w hw
    obtain ⟨rest, -, hafter⟩ := hworker w hw
    exact ⟨rest, hafter⟩
  · intro t hlow hhigh
    obtain ⟨rest, -, hafter⟩ := hocore t hlow hhigh
    exact ⟨rest, hafter⟩

theorem InStep.afterOcore (hs : InStep job s lw ls) (hentered : job.system.Entered s .ocore) :
    ∃ lw ls, InStep job (job.system.afterCollective s .ocore) lw ls := by
  have hocore : ∀ t, job.startingRank ≤ t → t < job.nprocs →
      ∃ rest, (ocoreOf s t).phase = .leaving (.ocore :: rest) ∧
        (ocoreOf (job.system.afterCollective s .ocore) t).phase = .leaving rest :=
    fun t hlow hhigh => ocore_leaves hentered hlow hhigh (mem_ocore_iff.mpr ⟨hlow, hhigh⟩)
  have hworker : ∀ w < job.startingRank,
      workerOf (job.system.afterCollective s .ocore) w = workerOf s w := by
    intro w hw
    rw [workerOf, loc_afterCollective_of_not_mem]
    · rfl
    · intro hmem
      have hlow := (mem_ocore_iff.mp hmem).1
      omega
  obtain ⟨ls', hls, -⟩ := hocore job.startingRank (Nat.le_refl _) (startingRank_lt_nprocs job)
  obtain rfl := hs.ocore job.startingRank (Nat.le_refl _) (startingRank_lt_nprocs job) _ hls
  refine ⟨lw, ls', fun w hw rest hphase => ?_, fun t hlow hhigh rest hphase => ?_,
    hs.worker_comm, fun hmem => hs.ocore_comm (List.mem_cons_of_mem _ hmem), ?_, Or.inl ⟨?_, ?_⟩⟩
  · exact hs.worker w hw rest (hworker w hw ▸ hphase)
  · obtain ⟨rest', hbefore, hafter⟩ := hocore t hlow hhigh
    rw [hafter] at hphase
    cases hphase
    exact (List.cons.inj (hs.ocore t hlow hhigh _ hbefore)).2
  · rw [hs.global, List.count_cons_of_ne (by decide)]
  · intro w hw
    rw [hworker w hw]
    exact hs.allLeaving_of_ocore.worker w hw
  · intro t hlow hhigh
    obtain ⟨rest, -, hafter⟩ := hocore t hlow hhigh
    exact ⟨rest, hafter⟩

theorem ocoreOf_afterWork (s : OcoreState Block) {t : ℕ} (hlow : job.startingRank ≤ t) :
    ocoreOf (job.system.afterCollective s .work) t = ocoreOf s t := by
  rw [ocoreOf, loc_afterCollective_of_not_mem]
  · rfl
  · intro hmem
    have hlt := List.mem_range.mp hmem
    omega

/-- At the barrier of the workers no rank is past its last message, afterwards
workers are. -/
theorem InStep.afterBarrier (hs : InStep job s lw ls) (hend : Ending job s)
    (hentered : job.system.Entered s .work) (hready : (workerOf s 0).phase = .ready) :
    ∃ lw ls, InStep job (job.system.afterCollective s .work) lw ls := by
  have hfull := hs.full fun hall => by
    obtain ⟨rest, hrest⟩ := hall.worker 0 job.startingRank_pos
    rw [hready] at hrest
    cases hrest
  refine ⟨_, _, inStep_full (fun w hw rest hphase => ?_) fun t hlow hhigh rest hphase => ?_⟩
  · rw [hend.passed hentered hready hw] at hphase
    split at hphase
    · rcases teardown_phase job job.startingRank (workerOf s w) with ⟨heq, -⟩ | ⟨heq, -⟩
      · rw [heq] at hphase
        cases hphase
      · rw [heq] at hphase
        cases hphase
        rfl
    · cases hphase
      rfl
  · exact hfull.2 t hlow hhigh rest (ocoreOf_afterWork s hlow ▸ hphase)

/-- A gather of the workers comes first in all their lists. -/
theorem InStep.afterGather (hs : InStep job s lw ls) (hend : Ending job s)
    (hentered : job.system.Entered s .work) (hnot : (workerOf s 0).phase ≠ .ready) :
    ∃ lw ls, InStep job (job.system.afterCollective s .work) lw ls := by
  have hworker : ∀ w < job.startingRank,
      ∃ rest, (workerOf s w).phase = .leaving (.work :: rest) ∧
        (workerOf (job.system.afterCollective s .work) w).phase = .leaving rest := fun w hw =>
    worker_leaves hentered hw (List.mem_range.mpr hw)
      (hend.not_barrier hentered (fun hbarrier => hnot hbarrier.2) hw)
  obtain ⟨lw', hlw, -⟩ := hworker 0 job.startingRank_pos
  obtain rfl := hs.worker 0 job.startingRank_pos _ hlw
  refine ⟨lw', ls, fun w hw rest hphase => ?_, fun t hlow hhigh rest hphase => ?_,
    fun hmem => hs.worker_comm (List.mem_cons_of_mem _ hmem), hs.ocore_comm, ?_,
    Or.inl ⟨?_, ?_⟩⟩
  · obtain ⟨rest', hbefore, hafter⟩ := hworker w hw
    rw [hafter] at hphase
    cases hphase
    exact (List.cons.inj (hs.worker w hw _ hbefore)).2
  · exact hs.ocore t hlow hhigh rest (ocoreOf_afterWork s hlow ▸ hphase)
  · rw [← hs.global, List.count_cons_of_ne (by decide)]
  · intro w hw
    obtain ⟨rest, -, hafter⟩ := hworker w hw
    exact ⟨rest, hafter⟩
  · intro t hlow hhigh
    rw [ocoreOf_afterWork s hlow]
    exact hs.allLeaving_of_work.ocore t hlow hhigh

theorem InStep.afterWork (hs : InStep job s lw ls) (hend : Ending job s)
    (hentered : job.system.Entered s .work) :
    ∃ lw ls, InStep job (job.system.afterCollective s .work) lw ls := by
  cases hphase : (workerOf s 0).phase with
  | ready => exact hs.afterBarrier hend hentered hphase
  | _ => exact hs.afterGather hend hentered (by simp [hphase])

end Collectives

/-- **In `Finalize` the ranks go through their collectives in step.** -/
theorem Job.Reachable.inStep (h : job.Reachable s) : ∃ lw ls, InStep job s lw ls := by
  refine h.invariant (I := fun s => ∃ lw ls, InStep job s lw ls)
    ⟨_, _, inStep_full (fun _ _ _ hc => by cases hc) fun _ _ _ _ hc => by cases hc⟩ ?_
  rintro s s' hreach ⟨lw, ls, hs⟩ hstep
  cases hstep with
  | @post w c calls client posted popped sync hw hready hphase htodo hplan =>
      refine hs.ofWorker rfl hw (fun rest hc => by rw [hphase] at hc; cases hc) fun rest hc => ?_
      rcases post_phase (workerOf s w) client posted popped with ⟨task, packet, heq⟩ | heq
      · rw [heq] at hc
        cases hc
      · rw [heq] at hc
        cases hc
  | emptyRead hw hready hphase htodo hplan =>
      exact hs.ofWorker rfl hw (fun rest hc => by rw [hphase] at hc; cases hc)
        fun rest hc => by cases hc
  | sendData sync hw hready hphase =>
      exact hs.ofWorker rfl hw (fun rest hc => by rw [hphase] at hc; cases hc)
        fun rest hc => by cases hc
  | receive hw hready hphase hdest hchan =>
      exact hs.ofWorker rfl hw (fun rest hc => by rw [hphase] at hc; cases hc)
        fun rest hc => by cases hc
  | @exit w task sync hw hready hphase =>
      refine hs.ofWorker rfl hw (fun rest hc => by rw [hphase] at hc; cases hc) fun rest hc => ?_
      rcases teardown_phase job (task + 1) (workerOf s w) with ⟨heq, -⟩ | ⟨heq, -⟩
      · rw [heq] at hc
        cases hc
      · rw [heq] at hc
        cases hc
        rfl
  | @poll t source e rest hlow hhigh hready hphase hchan =>
      refine hs.ofOcore rfl hlow hhigh (fun rest hc => by rw [hphase] at hc; cases hc)
        fun rest' hc => ?_
      rcases accept_phase job (ocoreOf s t) source
        (hreach.conversing.addressed source t e.msg (mem_header_of_chan hchan)) with
        ⟨-, heq⟩ | ⟨-, -, heq⟩ | ⟨-, -, heq⟩
      all_goals
        rw [heq] at hc
        cases hc
      rfl
  | store hlow hhigh hready hphase hchan =>
      exact hs.ofOcore rfl hlow hhigh (fun rest hc => by rw [hphase] at hc; cases hc)
        fun rest hc => by cases hc
  | reply sync hlow hhigh hready hphase hlast =>
      exact hs.ofOcore rfl hlow hhigh (fun rest hc => by rw [hphase] at hc; cases hc)
        fun rest hc => by cases hc
  | abort _ _ _ _ _ => exact ⟨lw, ls, hs.afterAbort⟩
  | ocoreAbort _ _ _ _ _ => exact ⟨lw, ls, hs.afterAbort⟩
  | @collective comm hentered =>
      cases comm with
      | global => exact hs.afterGlobal hentered
      | work => exact hs.afterWork hreach.ending hentered
      | ocore => exact hs.afterOcore hentered

end Grvy.Ocore
