import Grvy.Ocore.Shutdown
import Grvy.Ocore.Waiting
import Mathlib.Algebra.Order.BigOperators.Group.Finset

/-!
The protocol does not deadlock.

In every reachable state in which some rank has not finished, two ranks can
communicate, if need be after reads that a worker answers by itself. An Ocore
task that is not idle can take its turn, or its peer can; when all tasks are
idle or have left, no worker is blocked, and one of them can go on unless all
wait at the barrier; and past it the master or the next collective goes on.
Nothing is assumed about which sends are buffered.
-/

namespace Grvy.Ocore

open Grvy.Lib
open Grvy.Lib.MessagePassing

variable {Block : Type} {job : Job Block} {s s' : OcoreState Block}

/-! ### Turns that are possible -/

/-- Two ranks, or the members of a communicator, can communicate now. -/
def CanStep (job : Job Block) (s : OcoreState Block) : Prop :=
  ∃ e s', Event.isCommunication e = true ∧ job.system.perform e s = some s'

section Enabled

variable {rank source : ℕ} {dest : ℕ} {tag : Tag} {msg : Message Block tag}

theorem canStep_of_send {next : Task Block} (halive : s.aborted = false)
    (hready : System.Ready s rank)
    (hact : job.system.action rank (s.loc rank) = .send dest tag msg next) : CanStep job s :=
  ⟨.send rank false, _, rfl, System.perform_send halive hready hact false⟩

theorem canStep_of_recv {from_ : Option ℕ} {next : ℕ → Message Block tag → Task Block}
    (halive : s.aborted = false) (hready : System.Ready s rank)
    (hact : job.system.action rank (s.loc rank) = .recv from_ tag next)
    (hfrom : from_ = none ∨ from_ = some source) (hmsgs : s.msgs source rank tag ≠ []) :
    CanStep job s := by
  obtain ⟨s', hs'⟩ := System.perform_recv halive hready hact hfrom hmsgs
  exact ⟨.recv rank source, s', rfl, hs'⟩

theorem canStep_of_entered (comm : Comm) (halive : s.aborted = false)
    (hentered : job.system.Entered s comm) : CanStep job s :=
  ⟨.collective comm, _, rfl, System.perform_collective halive hentered⟩

theorem worker_action (hrank : rank < job.startingRank) {a : OcoreAction Block (Worker Block)}
    (hact : (workerOf s rank).action job rank = a) :
    job.system.action rank (s.loc rank) =
      Action.map (fun w => { s.loc rank with worker := w }) a := by
  rw [action_worker hrank, ← hact]
  rfl

theorem ocore_action (hlow : job.startingRank ≤ rank) (hhigh : rank < job.nprocs)
    {a : OcoreAction Block (OcoreTask Block)} (hact : (ocoreOf s rank).action job rank = a) :
    job.system.action rank (s.loc rank) =
      Action.map (fun v => { s.loc rank with ocore := v }) a := by
  rw [action_ocore hlow hhigh, ← hact]
  rfl

theorem passed_of_action {comm : Comm} {next : Task Block}
    (hact : job.system.action rank (s.loc rank) = .collective comm next) :
    (job.system.passed s comm rank).isSome = true := by
  simp [System.passed, hact]

end Enabled

theorem Job.Reachable.blockedInSend (h : job.Reachable s) : System.BlockedInSend s :=
  System.Reachable.invariant (fun _ _ _ hpending => by cases hpending)
    (fun _ _ _ hs _ hmove => hmove.blockedInSend hs) h

/-! ### Ocore tasks -/

/-- A polling task that nobody has sent a header. -/
structure Idle (s : OcoreState Block) (t : ℕ) : Prop where
  phase : (ocoreOf s t).phase = .polling
  ready : System.Ready s t
  headers : ∀ w, s.msgs w t .header = []

/-- Before its barrier a worker has nothing but requests under way to a task. -/
theorem Ending.headers_eq_nil (hs : Ending job s) {w t : ℕ} (hw : w < job.startingRank)
    (hexits : (workerOf s w).phase.exits job = none) (hlow : job.startingRank ≤ t)
    (hhigh : t < job.nprocs) (hrequests : (linkOf s w t).requests = []) :
    s.msgs w t .header = [] := by
  have hall : ∀ posted ∈ s.msgs w t .header, posted.isRequest = true := by
    rcases eq_or_ne w 0 with rfl | hzero
    · have hstatus := hs.order.status t hlow hhigh
      rw [hexits] at hstatus
      exact hstatus.requests_of_none.2
    · exact hs.order.requests w t hzero
  rw [← List.filter_eq_self.mpr hall]
  exact hrequests

/-- A worker about to send the data message, or waiting for an answer, is not
blocked if the header has been taken. -/
theorem Job.Reachable.ready_of_taken (hreach : job.Reachable s) {w t : ℕ}
    (hw : w < job.startingRank) (hlow : job.startingRank ≤ t) (hhigh : t < job.nprocs)
    (hphase : (∃ packet, (workerOf s w).phase = .sending t packet) ∨
      ∃ posted popped, (workerOf s w).phase = .awaiting posted popped ∧
        posted.header.destination = t)
    (hrequests : (linkOf s w t).requests = []) : System.Ready s w := by
  have hexits : (workerOf s w).phase.exits job = none := by
    rcases hphase with ⟨packet, hphase⟩ | ⟨posted, popped, hphase, -⟩
    · rw [hphase]
      rfl
    · rw [hphase]
      rfl
  have hheaders := hreach.ending.headers_eq_nil hw hexits hlow hhigh hrequests
  cases hpending : s.pending w with
  | none => exact hpending
  | some e =>
      obtain ⟨dest, tag⟩ := e
      obtain ⟨-, -, hmay⟩ := hreach.waiting.worker w hw dest tag hpending
      have hmsgs := hreach.blockedInSend.msgs_ne_nil hpending
      rcases hphase with ⟨packet, hphase⟩ | ⟨posted, popped, hphase, hdest⟩
      · rw [hphase] at hmay
        obtain ⟨rfl, rfl⟩ := hmay
        exact absurd hheaders hmsgs
      · rw [hphase] at hmay
        obtain ⟨rfl, rfl⟩ := hmay
        rw [hdest] at hmsgs
        exact absurd hheaders hmsgs

theorem phase_of_awaitingFrom {w : Worker Block} {t : ℕ} {posted : Posted Block}
    (h : w.awaitingFrom t = some posted) :
    ∃ popped, w.phase = .awaiting posted popped ∧ posted.header.destination = t := by
  rw [Worker.awaitingFrom] at h
  split at h
  · rename_i posted' popped hphase
    rw [Option.ite_none_right_eq_some] at h
    obtain ⟨hdest, heq⟩ := h
    obtain rfl := Option.some.inj heq
    exact ⟨popped, hphase, hdest⟩
  · cases h

theorem phase_of_sendingTo {w : Worker Block} {t : ℕ} {packet : Packet Block}
    (h : w.sendingTo t = some packet) : w.phase = .sending t packet := by
  rw [Worker.sendingTo] at h
  split at h
  · rename_i task packet' hphase
    rw [Option.ite_none_right_eq_some] at h
    obtain ⟨rfl, heq⟩ := h
    obtain rfl := Option.some.inj heq
    exact hphase
  · cases h

/-- Where an answer is on its way, its receiver can take it. -/
theorem canStep_of_answer (hreach : job.Reachable s) (halive : s.aborted = false) {w t : ℕ}
    (hw : w < job.startingRank) (hlow : job.startingRank ≤ t) (hhigh : t < job.nprocs)
    (hmsgs : s.msgs t w .recv ≠ []) : CanStep job s := by
  have hlink := hreach.conversing.link w t
  have hanswers : (linkOf s w t).answers ≠ [] := by
    change (s.msgs t w .recv).map some ≠ []
    simpa using hmsgs
  cases hawait : (linkOf s w t).awaiting with
  | none => exact absurd (hlink.idle hawait).1 hanswers
  | some posted =>
      obtain ⟨popped, hphase, hdest⟩ := phase_of_awaitingFrom hawait
      have hout : (linkOf s w t).outstanding = [] := by
        obtain ⟨-, -, before, -, ⟨pushes, -, -, hnone⟩ | ⟨hout, -⟩⟩ := hlink.waiting posted hawait
        · exact absurd hnone hanswers
        · exact hout
      have hready := hreach.ready_of_taken hw hlow hhigh (Or.inr ⟨posted, popped, hphase, hdest⟩)
        (List.append_eq_nil_iff.mp hout).2
      have hact : (workerOf s w).action job w = .recv (some posted.header.destination) .recv
          fun _ packet => (workerOf s w).receive popped packet.data := by
        simp only [Worker.action, hphase]
      exact canStep_of_recv halive hready (worker_action hw hact) (Or.inr (by rw [hdest])) hmsgs

theorem ready_of_not_polling (hreach : job.Reachable s) {t : ℕ} (hlow : job.startingRank ≤ t)
    (hhigh : t < job.nprocs) (hphase : (ocoreOf s t).phase ≠ .polling) : System.Ready s t := by
  cases hpending : s.pending t with
  | none => exact hpending
  | some e =>
      obtain ⟨-, -, hpolling⟩ := hreach.waiting.ocore t hlow hhigh e.1 e.2 hpending
      exact absurd hpolling hphase

/-- A task that waits for a data message gets it, or its worker can send it. -/
theorem canStep_of_receiving (hreach : job.Reachable s) (halive : s.aborted = false) {t : ℕ}
    (hlow : job.startingRank ≤ t) (hhigh : t < job.nprocs) {w : ℕ} {posted : Posted Block}
    (hphase : (ocoreOf s t).phase = .receiving w posted) : CanStep job s := by
  have hlink := hreach.conversing.link w t
  have hbusy : (linkOf s w t).busy = some posted := by
    change (ocoreOf s t).busyFor w = some posted
    rw [busyFor_of_receiving hphase, if_pos rfl]
  have hw := hreach.source_lt hbusy
  have hready := ready_of_not_polling hreach hlow hhigh (by simp [hphase])
  have hact : (ocoreOf s t).action job t = .recv (some w) .send
      fun _ packet => (ocoreOf s t).serve w posted (some packet.data) := by
    simp only [OcoreTask.action, hphase]
  by_cases hpayloads : s.msgs w t .send = []
  · -- the data message is still to be sent, and nothing else is outstanding
    obtain ⟨packet, hpacket⟩ := Option.ne_none_iff_exists'.mp fun hnone =>
      hreach.conversing.receiving t w posted hphase (payload_eq_none_iff.mp hnone)
    have hpay := hlink.payloads_eq
    have hnone : (linkOf s w t).payloads = [] := hpayloads
    rw [Link.outstanding, hbusy, hnone, Option.toList_some, List.singleton_append,
      List.filterMap_cons_some hpacket, List.nil_append] at hpay
    cases hsend : (linkOf s w t).sending with
    | none => simp [hsend] at hpay
    | some packet' =>
        rw [hsend, Option.toList_some] at hpay
        have hsending := phase_of_sendingTo hsend
        have hawait : (linkOf s w t).awaiting = none := by
          change (workerOf s w).awaitingFrom t = none
          rw [Worker.awaitingFrom, hsending]
        have hrequests : (linkOf s w t).requests = [] := by
          have hpush := (hlink.idle hawait).2.1
          have htail := List.filterMap_eq_nil_iff.mp (List.cons.inj hpay).2
          refine List.eq_nil_iff_forall_not_mem.mpr fun posted' hmem => ?_
          exact hpush posted' (List.mem_append_right _ hmem) (htail posted' hmem)
        have hready' := hreach.ready_of_taken hw hlow hhigh (Or.inl ⟨packet', hsending⟩) hrequests
        have hact' : (workerOf s w).action job w =
            .send t .send packet' ((workerOf s w).complete .written) := by
          simp only [Worker.action, hsending]
        exact canStep_of_send halive hready' (worker_action hw hact')
  · exact canStep_of_recv halive hready (ocore_action hlow hhigh hact) (Or.inr rfl) hpayloads

/-- A task that is asked for a record has it. -/
theorem lastStored_of_replying (hreach : job.Reachable s) {t w : ℕ} {posted : Posted Block}
    (hphase : (ocoreOf s t).phase = .replying w posted) :
    ∃ data, lastStored (headerKey w posted.header.offset) (ocoreOf s t).requests = some data := by
  have hlink := hreach.conversing.link w t
  have hbusy : (linkOf s w t).busy = some posted := by
    change (ocoreOf s t).busyFor w = some posted
    rw [busyFor_of_replying hphase, if_pos rfl]
  have hdata := hreach.conversing.replying t w posted hphase
  obtain ⟨hawait, -, hissued, -, -⟩ := hlink.busy_pull hbusy (payload_eq_none_iff.mpr hdata)
  obtain ⟨popped, hawaiting, hdest⟩ := phase_of_awaitingFrom hawait
  obtain ⟨ss, hfollow⟩ := hreach.following w
  obtain ⟨⟨⟨c, calls, -, hplan⟩, hahead⟩, -⟩ := hfollow.of_awaiting hawaiting
  have hanswer := hfollow.sound.answer_isSome (Client.planned_of_plan hplan).1
  rw [Session.answer, hdata, Option.isSome_map, hdest] at hanswer
  have hserved : issuedTo t ss.issued = (ocoreOf s t).servedFor w := by
    change issuedTo t (workerOf s w).issued = (ocoreOf s t).servedFor w ++ [posted] at hissued
    rw [hahead, issuedTo_append, if_pos hdest] at hissued
    exact List.append_cancel_right hissued
  rw [hserved, ← lastStored_requests (hreach.conversing.stored t) w] at hanswer
  exact Option.isSome_iff_exists.mp hanswer

/-- No Ocore task aborts. -/
theorem canStep_of_replying (hreach : job.Reachable s) (halive : s.aborted = false) {t : ℕ}
    (hlow : job.startingRank ≤ t) (hhigh : t < job.nprocs) {w : ℕ} {posted : Posted Block}
    (hphase : (ocoreOf s t).phase = .replying w posted) : CanStep job s := by
  obtain ⟨data, hlast⟩ := lastStored_of_replying hreach hphase
  have hready := ready_of_not_polling hreach hlow hhigh (by simp [hphase])
  have hact : (ocoreOf s t).action job t = .send w .recv { data := data, call := posted.call }
      ((ocoreOf s t).serve w posted none) := by
    simp only [OcoreTask.action, hphase, hlast]
  exact canStep_of_send halive hready (ocore_action hlow hhigh hact)

/-- A task can take its turn, or has left, or is idle. -/
theorem ocore_progress (hreach : job.Reachable s) (halive : s.aborted = false) {t : ℕ}
    (hlow : job.startingRank ≤ t) (hhigh : t < job.nprocs) :
    CanStep job s ∨ (∃ rest, (ocoreOf s t).phase = .leaving rest) ∨ Idle s t := by
  cases hphase : (ocoreOf s t).phase with
  | receiving w posted =>
      exact Or.inl (canStep_of_receiving hreach halive hlow hhigh hphase)
  | replying w posted =>
      exact Or.inl (canStep_of_replying hreach halive hlow hhigh hphase)
  | leaving rest => exact Or.inr (Or.inl ⟨rest, rfl⟩)
  | polling =>
      cases hpending : s.pending t with
      | some e =>
          -- an answer has been sent and not yet received
          obtain ⟨w, tag⟩ := e
          obtain ⟨hw, rfl, -⟩ := hreach.waiting.ocore t hlow hhigh w tag hpending
          exact Or.inl (canStep_of_answer hreach halive hw hlow hhigh
            (hreach.blockedInSend.msgs_ne_nil hpending))
      | none =>
          by_cases hheaders : ∀ w, s.msgs w t .header = []
          · exact Or.inr (Or.inr ⟨hphase, hpending, hheaders⟩)
          · obtain ⟨w, hw⟩ := not_forall.mp hheaders
            have hact : (ocoreOf s t).action job t = .recv none .header
                fun source posted => (ocoreOf s t).accept job t source posted := by
              simp only [OcoreTask.action, hphase]
            exact Or.inl (canStep_of_recv halive hpending (ocore_action hlow hhigh hact)
              (Or.inl rfl) hw)

/-! ### Workers before their barrier -/

/-- The worker takes its next call. -/
structure Calls (job : Job Block) (s : OcoreState Block) (w : ℕ) (plan : Plan Block) : Prop where
  ready : System.Ready s w
  phase : (workerOf s w).phase = .ready
  todo : ∃ c calls, (workerOf s w).todo = c :: calls ∧
    (workerOf s w).client.plan job w (workerOf s w).returned.length c = plan

structure AtBarrier (s : OcoreState Block) (w : ℕ) : Prop where
  ready : System.Ready s w
  phase : (workerOf s w).phase = .ready
  todo : (workerOf s w).todo = []

theorem outstanding_of_idle {t : ℕ} (hidle : Idle s t) (w : ℕ) :
    (linkOf s w t).outstanding = [] := by
  change ((ocoreOf s t).busyFor w).toList ++ (s.msgs w t .header).filter Posted.isRequest = []
  rw [busyFor_of_polling hidle.phase, hidle.headers w]
  rfl

/-- Nobody is blocked in a message to an idle task. -/
theorem ready_of_idle (hreach : job.Reachable s) {w : ℕ} (hw : w < job.startingRank)
    (hidle : ∀ t, job.startingRank ≤ t → t < job.nprocs → Idle s t) : System.Ready s w := by
  cases hpending : s.pending w with
  | none => exact hpending
  | some e =>
      obtain ⟨t, tag⟩ := e
      obtain ⟨hlow, hhigh, hmay⟩ := hreach.waiting.worker w hw t tag hpending
      have hmsgs := hreach.blockedInSend.msgs_ne_nil hpending
      have htag : tag = .header ∨ tag = .send := by
        cases hphase : (workerOf s w).phase with
        | ready =>
            rw [hphase] at hmay
            exact Or.inr hmay
        | _ =>
            rw [hphase] at hmay
            exact Or.inl hmay.1
      rcases htag with rfl | rfl
      · exact absurd ((hidle t hlow hhigh).headers w) hmsgs
      · have hpay := (hreach.conversing.link w t).payloads_eq
        rw [outstanding_of_idle (hidle t hlow hhigh)] at hpay
        exact absurd (List.append_eq_nil_iff.mp hpay.symm).1 hmsgs

/-- When all tasks are idle, a worker can take its turn or waits at the barrier. -/
theorem worker_progress (hreach : job.Reachable s) (halive : s.aborted = false) {w : ℕ}
    (hw : w < job.startingRank) (hexits : (workerOf s w).phase.exits job = none)
    (hidle : ∀ t, job.startingRank ≤ t → t < job.nprocs → Idle s t) :
    CanStep job s ∨ AtBarrier s w ∨ Calls job s w .emptyRead ∨ Calls job s w .abort := by
  have hready := ready_of_idle hreach hw hidle
  cases hphase : (workerOf s w).phase with
  | exiting task =>
      rw [hphase] at hexits
      cases hexits
  | leaving rest =>
      rw [hphase] at hexits
      cases hexits
  | sending t packet =>
      have hact : (workerOf s w).action job w =
          .send t .send packet ((workerOf s w).complete .written) := by
        simp only [Worker.action, hphase]
      exact Or.inl (canStep_of_send halive hready (worker_action hw hact))
  | awaiting posted popped =>
      -- the request has been processed, so its answer is on the way
      obtain ⟨ss, hfollow⟩ := hreach.following w
      obtain ⟨⟨⟨c, calls, -, hplan⟩, -⟩, -⟩ := hfollow.of_awaiting hphase
      obtain ⟨hlow, hhigh⟩ := hfollow.sound.ranged.destination hplan
      have hout := outstanding_of_idle (hidle _ hlow hhigh) w
      have hawait : (linkOf s w posted.header.destination).awaiting = some posted := by
        change (workerOf s w).awaitingFrom posted.header.destination = some posted
        rw [Worker.awaitingFrom, hphase]
        exact if_pos rfl
      refine Or.inl (canStep_of_answer hreach halive hw hlow hhigh fun hnone => ?_)
      obtain ⟨-, -, before, -, ⟨pushes, hpushes, -, -⟩ | ⟨-, hanswers⟩⟩ :=
        (hreach.conversing.link w posted.header.destination).waiting posted hawait
      · rw [hout] at hpushes
        simp at hpushes
      · change (s.msgs posted.header.destination w .recv).map some = _ at hanswers
        rw [hnone] at hanswers
        cases hanswers
  | ready =>
      cases htodo : (workerOf s w).todo with
      | nil => exact Or.inr (Or.inl ⟨hready, hphase, htodo⟩)
      | cons c calls =>
          cases hplan : (workerOf s w).client.plan job w (workerOf s w).returned.length c with
          | emptyRead =>
              exact Or.inr (Or.inr (Or.inl ⟨hready, hphase, c, calls, htodo, hplan⟩))
          | abort => exact Or.inr (Or.inr (Or.inr ⟨hready, hphase, c, calls, htodo, hplan⟩))
          | request client posted popped =>
              have hact : (workerOf s w).action job w =
                  .send posted.header.destination .header posted
                    ((workerOf s w).post client posted popped) := by
                simp only [Worker.action, hphase, htodo, hplan]
              exact Or.inl (canStep_of_send halive hready (worker_action hw hact))

theorem entered_of_atBarrier (hall : ∀ w < job.startingRank, AtBarrier s w) :
    job.system.Entered s .work := by
  intro w hmem
  have hw : w < job.startingRank := List.mem_range.mp hmem
  obtain ⟨hready, hphase, htodo⟩ := hall w hw
  obtain ⟨next, hact⟩ : ∃ next, (workerOf s w).action job w = .collective .work next :=
    ⟨_, by simp only [Worker.action, hphase, htodo]; rfl⟩
  exact ⟨hready, passed_of_action (worker_action hw hact)⟩

/-! ### Ranks in Finalize -/

/-- A task that has left has no header from the master in its queue. -/
theorem headers_of_leaving (hreach : job.Reachable s) {t : ℕ} (hlow : job.startingRank ≤ t)
    (hhigh : t < job.nprocs) {rest : List Comm} (hphase : (ocoreOf s t).phase = .leaving rest) :
    s.msgs 0 t .header = [] :=
  (hreach.ending.of_hasLeft hlow hhigh (by rw [hphase]; rfl)).1

/-- Past the barrier only the master may be blocked, and only in a header that
has not been taken. -/
theorem ready_of_finalizing (hreach : job.Reachable s)
    (hocore : ∀ t, job.startingRank ≤ t → t < job.nprocs →
      (∃ rest, (ocoreOf s t).phase = .leaving rest) ∨ Idle s t) {w : ℕ}
    (hw : w < job.startingRank)
    (hphase : (∃ task, (workerOf s w).phase = .exiting task) ∨
      ∃ rest, (workerOf s w).phase = .leaving rest) : System.Ready s w := by
  cases hpending : s.pending w with
  | none => exact hpending
  | some e =>
      obtain ⟨t, tag⟩ := e
      obtain ⟨hlow, hhigh, hmay⟩ := hreach.waiting.worker w hw t tag hpending
      have hmaster : tag = .header ∧ w = 0 := by
        rcases hphase with ⟨task, hphase⟩ | ⟨rest, hphase⟩
        · rw [hphase] at hmay
          exact hmay
        · rw [hphase] at hmay
          exact hmay
      obtain ⟨rfl, rfl⟩ := hmaster
      have hmsgs := hreach.blockedInSend.msgs_ne_nil hpending
      rcases hocore t hlow hhigh with ⟨rest, hleaving⟩ | hidle
      · exact absurd (headers_of_leaving hreach hlow hhigh hleaving) hmsgs
      · exact absurd (hidle.headers 0) hmsgs

/-- When the master has told all tasks to exit, they have left or have its header
in their queues. -/
theorem allLeaving_of_master (hreach : job.Reachable s)
    (hocore : ∀ t, job.startingRank ≤ t → t < job.nprocs →
      (∃ rest, (ocoreOf s t).phase = .leaving rest) ∨ Idle s t)
    (hpast : ∀ w < job.startingRank, ((workerOf s w).phase.exits job).isSome)
    {rest : List Comm} (hmaster : (workerOf s 0).phase = .leaving rest) : AllLeaving job s where
  worker w hw := by
    rcases (exits_isSome_iff job).mp (hpast w hw) with ⟨task, hphase⟩ | hleaving
    · obtain ⟨rfl, -, -⟩ := hreach.ending.master w task hphase
      rw [hmaster] at hphase
      cases hphase
    · exact hleaving
  ocore t hlow hhigh := by
    rcases hocore t hlow hhigh with hleaving | hidle
    · exact hleaving
    · have hstatus := hreach.ending.order.status t hlow hhigh
      rw [hmaster, hidle.headers 0, hidle.phase] at hstatus
      cases hstatus with
      | untold hle _ _ =>
          have := hle job.nprocs rfl
          omega
      | told _ _ _ hqueue _ => simp at hqueue
      | left _ _ hleft _ => cases hleft

theorem passed_of_leaving_worker {w : ℕ} (hw : w < job.startingRank) {comm : Comm}
    {rest : List Comm} (hphase : (workerOf s w).phase = .leaving (comm :: rest)) :
    (job.system.passed s comm w).isSome = true := by
  have hact : (workerOf s w).action job w =
      .collective comm { workerOf s w with phase := .leaving rest } := by
    simp only [Worker.action, hphase, Action.ofCollectives]
  exact passed_of_action (worker_action hw hact)

theorem passed_of_leaving_ocore {t : ℕ} (hlow : job.startingRank ≤ t) (hhigh : t < job.nprocs)
    {comm : Comm} {rest : List Comm} (hphase : (ocoreOf s t).phase = .leaving (comm :: rest)) :
    (job.system.passed s comm t).isSome = true := by
  have hact : (ocoreOf s t).action job t =
      .collective comm { ocoreOf s t with phase := .leaving rest } := by
    simp only [OcoreTask.action, hphase, Action.ofCollectives]
  exact passed_of_action (ocore_action hlow hhigh hact)

/-- All ranks have the collectives `lw` or `ls` before them and nothing else. -/
structure AllAt (job : Job Block) (s : OcoreState Block) (lw ls : List Comm) : Prop where
  ready : ∀ p < job.nprocs, System.Ready s p
  worker : ∀ w < job.startingRank, (workerOf s w).phase = .leaving lw
  ocore : ∀ t, job.startingRank ≤ t → t < job.nprocs → (ocoreOf s t).phase = .leaving ls

namespace AllAt

variable {lw ls rest rest' : List Comm}

theorem canStep_work (h : AllAt job s (.work :: rest) ls) (halive : s.aborted = false) :
    CanStep job s := by
  apply canStep_of_entered .work halive
  intro p hmem
  have hw : p < job.startingRank := List.mem_range.mp hmem
  exact ⟨h.ready p (Nat.lt_trans hw (startingRank_lt_nprocs job)),
    passed_of_leaving_worker hw (h.worker p hw)⟩

theorem canStep_ocore (h : AllAt job s lw (.ocore :: rest)) (halive : s.aborted = false) :
    CanStep job s := by
  apply canStep_of_entered .ocore halive
  intro p hmem
  obtain ⟨hlow, hhigh⟩ := mem_ocore_iff.mp hmem
  exact ⟨h.ready p hhigh, passed_of_leaving_ocore hlow hhigh (h.ocore p hlow hhigh)⟩

theorem canStep_global (h : AllAt job s (.global :: rest) (.global :: rest'))
    (halive : s.aborted = false) : CanStep job s := by
  apply canStep_of_entered .global halive
  intro p hmem
  have hhigh : p < job.nprocs := List.mem_range.mp hmem
  refine ⟨h.ready p hhigh, ?_⟩
  rcases Nat.lt_or_ge p job.startingRank with hw | hlow
  · exact passed_of_leaving_worker hw (h.worker p hw)
  · exact passed_of_leaving_ocore hlow hhigh (h.ocore p hlow hhigh)

theorem stop (h : AllAt job s [] []) {p : ℕ} (hp : p < job.nprocs) :
    job.system.action p (s.loc p) = .stop := by
  rcases Nat.lt_or_ge p job.startingRank with hw | hlow
  · have hact : (workerOf s p).action job p = .stop := by
      simp only [Worker.action, h.worker p hw, Action.ofCollectives]
    exact worker_action hw hact
  · have hact : (ocoreOf s p).action job p = .stop := by
      simp only [OcoreTask.action, h.ocore p hlow hp, Action.ofCollectives]
    exact ocore_action hlow hp hact

end AllAt

/-- The lists of collectives fit together: unless both are at their end, the next
one can be completed. -/
theorem canStep_of_allLeaving (hreach : job.Reachable s) (halive : s.aborted = false)
    (hall : AllLeaving job s) (hready : ∀ p < job.nprocs, System.Ready s p) :
    CanStep job s ∨ ∀ p < job.nprocs, job.system.action p (s.loc p) = .stop := by
  obtain ⟨lw, ls, hstep⟩ := hreach.inStep
  have hat : AllAt job s lw ls := by
    refine ⟨hready, fun w hw => ?_, fun t hlow hhigh => ?_⟩
    · obtain ⟨rest, hrest⟩ := hall.worker w hw
      rw [hrest, hstep.worker w hw rest hrest]
    · obtain ⟨rest, hrest⟩ := hall.ocore t hlow hhigh
      rw [hrest, hstep.ocore t hlow hhigh rest hrest]
  have hcount := hstep.global
  have hcomm := hstep.worker_comm
  have hcomm' := hstep.ocore_comm
  match lw, ls with
  | .work :: _, _ => exact Or.inl (hat.canStep_work halive)
  | .ocore :: _, _ => exact absurd List.mem_cons_self hcomm
  | _, .ocore :: _ => exact Or.inl (hat.canStep_ocore halive)
  | _, .work :: _ => exact absurd List.mem_cons_self hcomm'
  | .global :: _, .global :: _ => exact Or.inl (hat.canStep_global halive)
  | .global :: _, [] => simp at hcount
  | [], .global :: _ => simp at hcount
  | [], [] => exact Or.inr fun p hp => hat.stop hp

/-- Past the barrier the master or the next collective can go on. -/
theorem finalize_progress (hreach : job.Reachable s) (halive : s.aborted = false)
    (hocore : ∀ t, job.startingRank ≤ t → t < job.nprocs →
      (∃ rest, (ocoreOf s t).phase = .leaving rest) ∨ Idle s t)
    (hpast : ∀ w < job.startingRank, ((workerOf s w).phase.exits job).isSome) :
    CanStep job s ∨ ∀ p < job.nprocs, job.system.action p (s.loc p) = .stop := by
  have hreadyWorker : ∀ w < job.startingRank, System.Ready s w := fun w hw =>
    ready_of_finalizing hreach hocore hw ((exits_isSome_iff job).mp (hpast w hw))
  rcases (exits_isSome_iff job).mp (hpast 0 job.startingRank_pos) with
    ⟨task, hphase⟩ | ⟨rest, hphase⟩
  · have hact : (workerOf s 0).action job 0 =
        .send task .header exitMessage ((workerOf s 0).teardown job (task + 1)) := by
      simp only [Worker.action, hphase]
    exact Or.inl (canStep_of_send halive (hreadyWorker 0 job.startingRank_pos)
      (worker_action job.startingRank_pos hact))
  · have hall := allLeaving_of_master hreach hocore hpast hphase
    refine canStep_of_allLeaving hreach halive hall fun p hp => ?_
    rcases Nat.lt_or_ge p job.startingRank with hw | hlow
    · exact hreadyWorker p hw
    · obtain ⟨rest', hleaving⟩ := hall.ocore p hlow hp
      exact ready_of_not_polling hreach hlow hp (by simp [hleaving])

/-! ### Freedom from deadlock -/

/-- Two ranks can communicate, after some local computation. -/
def CanCommunicate (job : Job Block) (s : OcoreState Block) : Prop :=
  ∃ events s₁ e s₂, (∀ e' ∈ events, ∃ w, e' = Event.compute w) ∧
    job.system.performAll events s = some s₁ ∧ Event.isCommunication e = true ∧
    job.system.perform e s₁ = some s₂

/-- The worker can call `Abort`, after some local computation. -/
def CanAbort (job : Job Block) (s : OcoreState Block) (w : ℕ) : Prop :=
  ∃ events s₁ s₂, (∀ e' ∈ events, ∃ w, e' = Event.compute w) ∧
    job.system.performAll events s = some s₁ ∧ job.system.perform (.abort w) s₁ = some s₂

/-- What a state can do at once: communicate, answer a read locally, abort, or
nothing more because all ranks have finished. -/
theorem one_step_progress (hreach : job.Reachable s) (halive : s.aborted = false) :
    CanStep job s ∨ (∃ w < job.startingRank, Calls job s w .emptyRead) ∨
      (∃ w < job.startingRank, Calls job s w .abort) ∨
      ∀ p < job.nprocs, job.system.action p (s.loc p) = .stop := by
  by_cases hstep : CanStep job s
  · exact Or.inl hstep
  have hocore : ∀ t, job.startingRank ≤ t → t < job.nprocs →
      (∃ rest, (ocoreOf s t).phase = .leaving rest) ∨ Idle s t := fun t hlow hhigh =>
    (ocore_progress hreach halive hlow hhigh).resolve_left hstep
  cases hexits : (workerOf s 0).phase.exits job with
  | some k =>
      have hpast : ∀ w < job.startingRank, ((workerOf s w).phase.exits job).isSome := fun w hw =>
        hreach.ending.order.uniform 0 w job.startingRank_pos hw (by rw [hexits]; rfl)
      have hfinal := finalize_progress hreach halive hocore hpast
      exact Or.inr (Or.inr (Or.inr (hfinal.resolve_left hstep)))
  | none =>
      have hbefore : ∀ w < job.startingRank, (workerOf s w).phase.exits job = none := by
        intro w hw
        cases hw' : (workerOf s w).phase.exits job with
        | none => rfl
        | some k =>
            have hsome := hreach.ending.order.uniform w 0 hw job.startingRank_pos
              (by rw [hw']; rfl)
            rw [hexits] at hsome
            cases hsome
      -- no task leaves before the barrier
      have hidle : ∀ t, job.startingRank ≤ t → t < job.nprocs → Idle s t := by
        intro t hlow hhigh
        refine (hocore t hlow hhigh).resolve_left ?_
        rintro ⟨rest, hleaving⟩
        have hstatus := hreach.ending.order.status t hlow hhigh
        rw [hexits, hleaving] at hstatus
        cases hstatus.requests_of_none.1
      by_cases hall : ∀ w < job.startingRank, AtBarrier s w
      · exact absurd (canStep_of_entered .work halive (entered_of_atBarrier hall)) hstep
      · push Not at hall
        obtain ⟨w, hw, hnot⟩ := hall
        rcases worker_progress hreach halive hw (hbefore w hw) hidle with
          hcan | hbarrier | hempty | habort
        · exact absurd hcan hstep
        · exact absurd hbarrier hnot
        · exact Or.inr (Or.inl ⟨w, hw, hempty⟩)
        · exact Or.inr (Or.inr (Or.inl ⟨w, hw, habort⟩))

/-- A worker that is about to abort does so in its program. -/
theorem Calls.programAborts (hreach : job.Reachable s) {w : ℕ} (h : Calls job s w .abort) :
    job.ProgramAborts w := by
  obtain ⟨-, hphase, c, calls, htodo, hplan⟩ := h
  obtain ⟨ss, hfollow⟩ := hreach.following w
  have hrun : ss.run job w c = none := by
    rw [Session.run, ← (hfollow.of_ready hphase).1, ← hfollow.returned, hplan]
  rw [← Session.runAll_eq_none_iff_programAborts,
    ← List.take_append_drop (workerOf s w).returned.length (job.program w),
    Session.runAll_append, hfollow.run, ← hfollow.todo, htodo]
  simp [Session.runAll, hrun]

/-- Only a program that aborts ends a run early. -/
theorem Job.Reachable.programAborts (hreach : job.Reachable s) (h : s.aborted = true) :
    ∃ w < job.startingRank, job.ProgramAborts w := by
  revert h
  refine hreach.invariant (I := fun s => s.aborted = true →
    ∃ w < job.startingRank, job.ProgramAborts w) (fun h => by cases h) ?_
  intro s s' hreach hs hstep haborted
  cases hstep with
  | abort hw hready hphase htodo hplan =>
      exact ⟨_, hw, Calls.programAborts hreach ⟨hready, hphase, _, _, htodo, hplan⟩⟩
  | ocoreAbort hlow hhigh hready hphase hlast =>
      obtain ⟨data, hdata⟩ := lastStored_of_replying hreach hphase
      rw [hlast] at hdata
      cases hdata
  | _ => exact hs haborted

theorem Calls.perform_emptyRead (halive : s.aborted = false) {w : ℕ}
    (hw : w < job.startingRank) (h : Calls job s w .emptyRead) :
    job.system.perform (.compute w) s = some (s.afterCompute w
      { s.loc w with worker := (workerOf s w).complete (.delivered job.zero) }) := by
  obtain ⟨hready, hphase, c, calls, htodo, hplan⟩ := h
  have hact : (workerOf s w).action job w =
      .compute ((workerOf s w).complete (.delivered job.zero)) := by
    simp only [Worker.action, hphase, htodo, hplan]
  exact System.perform_compute halive hready (worker_action hw hact)

theorem Calls.perform_abort (halive : s.aborted = false) {w : ℕ} (hw : w < job.startingRank)
    (h : Calls job s w .abort) : ∃ s', job.system.perform (.abort w) s = some s' := by
  obtain ⟨hready, hphase, c, calls, htodo, hplan⟩ := h
  have hact : (workerOf s w).action job w = .abort := by
    simp only [Worker.action, hphase, htodo, hplan]
  exact ⟨_, System.perform_abort halive hready (worker_action hw hact)⟩

/-- The calls that the workers have not completed. -/
def remaining (job : Job Block) (s : OcoreState Block) : ℕ :=
  ∑ w ∈ Finset.range job.startingRank, (workerOf s w).todo.length

/-- A read answered locally leaves fewer calls. -/
theorem Calls.remaining_lt {w : ℕ} (hw : w < job.startingRank) (h : Calls job s w .emptyRead) :
    remaining job (s.afterCompute w
      { s.loc w with worker := (workerOf s w).complete (.delivered job.zero) }) <
        remaining job s := by
  obtain ⟨-, -, c, calls, htodo, -⟩ := h
  have htail : ((workerOf s w).complete (.delivered job.zero)).todo.length <
      (workerOf s w).todo.length := by
    rw [Worker.complete, htodo]
    simp
  apply Finset.sum_lt_sum
  · intro w' _
    rw [workerOf_of_worker rfl]
    split
    · rename_i heq
      rw [heq]
      exact Nat.le_of_lt htail
    · exact Nat.le_refl _
  · refine ⟨w, Finset.mem_range.mpr hw, ?_⟩
    rw [workerOf_of_worker rfl, if_pos rfl]
    exact htail

theorem action_ne_stop_of_ready {w : ℕ} (hw : w < job.startingRank)
    (hphase : (workerOf s w).phase = .ready) : job.system.action w (s.loc w) ≠ .stop := by
  intro hstop
  have hturn := (workerOf s w).turn job w
  rw [worker_action hw rfl] at hstop
  cases hact : (workerOf s w).action job w with
  | stop =>
      rw [hact] at hturn
      cases hturn with
      | stop hleaving =>
          rw [hphase] at hleaving
          cases hleaving
  | _ =>
      rw [hact] at hstop
      cases hstop

theorem performAll_cons {e : Event ℕ Comm} {events : List (Event ℕ Comm)} {s₁ : OcoreState Block}
    (h : job.system.perform e s = some s₁) :
    job.system.performAll (e :: events) s = job.system.performAll events s₁ := by
  rw [System.performAll, h, Option.bind_some]

theorem CanCommunicate.compute {w : ℕ} {s₁ : OcoreState Block} (h : CanCommunicate job s₁)
    (hperform : job.system.perform (.compute w) s = some s₁) : CanCommunicate job s := by
  obtain ⟨events, s₂, e, s₃, hlocal, hall, hcomm, hlast⟩ := h
  refine ⟨.compute w :: events, s₂, e, s₃, fun e' hmem => ?_, ?_, hcomm, hlast⟩
  · rcases List.mem_cons.mp hmem with rfl | hmem
    · exact ⟨w, rfl⟩
    · exact hlocal e' hmem
  · rw [performAll_cons hperform, hall]

theorem CanAbort.compute {w w' : ℕ} {s₁ : OcoreState Block} (h : CanAbort job s₁ w')
    (hperform : job.system.perform (.compute w) s = some s₁) : CanAbort job s w' := by
  obtain ⟨events, s₂, s₃, hlocal, hall, hlast⟩ := h
  refine ⟨.compute w :: events, s₂, s₃, fun e' hmem => ?_, ?_, hlast⟩
  · rcases List.mem_cons.mp hmem with rfl | hmem
    · exact ⟨w, rfl⟩
    · exact hlocal e' hmem
  · rw [performAll_cons hperform, hall]

/-- **The protocol does not deadlock.** In every reachable state in which some rank
has not finished, two ranks or the members of a communicator can communicate;
the only exception is a run that a worker ends, or can end, by calling `Abort`
in its program. -/
theorem no_deadlock (hreach : job.Reachable s) {p : ℕ} (hp : p < job.nprocs)
    (hrunning : job.system.action p (s.loc p) ≠ .stop) :
    CanCommunicate job s ∨
      ∃ w < job.startingRank, job.ProgramAborts w ∧ (s.aborted = true ∨ CanAbort job s w) := by
  cases halive : s.aborted with
  | true =>
      obtain ⟨w, hw, haborts⟩ := hreach.programAborts halive
      exact Or.inr ⟨w, hw, haborts, Or.inl rfl⟩
  | false =>
      generalize hn : remaining job s = n
      induction n using Nat.strong_induction_on generalizing s with
      | _ n ih =>
          rcases one_step_progress hreach halive with
            ⟨e, s', hcomm, hperform⟩ | ⟨w, hw, hempty⟩ | ⟨w, hw, habort⟩ | hstopped
          · exact Or.inl ⟨[], s, e, s', (fun _ h => by cases h), rfl, hcomm, hperform⟩
          · -- the worker answers the read by itself, and there are fewer calls left
            have hperform := hempty.perform_emptyRead halive hw
            have hrunning' : job.system.action p ((s.afterCompute w { s.loc w with
                worker := (workerOf s w).complete (.delivered job.zero) }).loc p) ≠ .stop := by
              rcases eq_or_ne p w with rfl | hne
              · apply action_ne_stop_of_ready hw
                rw [workerOf_of_worker rfl, if_pos rfl]
                rfl
              · rw [State.loc_afterCompute, Function.update_of_ne hne]
                exact hrunning
            rcases ih _ (hn ▸ hempty.remaining_lt hw) (hreach.step _ hperform) hrunning' halive
              rfl with hcan | ⟨w', hw', haborts, hend⟩
            · exact Or.inl (hcan.compute hperform)
            · have hend' := hend.resolve_left Bool.false_ne_true
              exact Or.inr ⟨w', hw', haborts, Or.inr (hend'.compute hperform)⟩
          · obtain ⟨s', hs'⟩ := habort.perform_abort halive hw
            exact Or.inr ⟨w, hw, habort.programAborts hreach,
              Or.inr ⟨[], s, s', (fun _ h => by cases h), rfl, hs'⟩⟩
          · exact absurd (hstopped p hp) hrunning

/-- Both workers are blocked in the data messages of their writes. -/
theorem twoReaders_no_deadlock :
    ∃ s, twoReaders.Reachable s ∧ ¬System.Ready s 0 ∧ ¬System.Ready s 1 ∧
      CanCommunicate twoReaders s := by
  have hrun : (twoReaders.system.performAll
      [.send 0 false, .send 0 true, .send 1 false, .send 1 true] twoReaders.initState).any
        (fun s => decide (¬System.Ready s 0) && decide (¬System.Ready s 1) &&
          (match (workerOf s 0).phase with
            | .ready => true
            | _ => false)) = true := by
    decide +kernel
  have hprograms : ∀ w < 2, (Call.runAll (twoReaders.allowEmptyRecordsOn w) twoReaders.zero
      (twoReaders.program w) ∅).isSome = true := by
    decide +kernel
  obtain ⟨s, hs, htest⟩ := (Option.any_eq_true _ _).mp hrun
  simp only [Bool.and_eq_true, decide_eq_true_eq] at htest
  obtain ⟨⟨hblocked, hblocked'⟩, hphase⟩ := htest
  have hreach : twoReaders.Reachable s := System.reachable_of_performAll .init hs
  have hready : (workerOf s 0).phase = .ready := by
    split at hphase
    · assumption
    · cases hphase
  have hrunning := action_ne_stop_of_ready twoReaders.startingRank_pos hready
  refine ⟨s, hreach, hblocked, hblocked', ?_⟩
  rcases no_deadlock hreach (by decide) hrunning with hcan | ⟨w, hw, haborts, -⟩
  · exact hcan
  · have hsome := hprograms w hw
    rw [Job.ProgramAborts] at haborts
    rw [haborts] at hsome
    cases hsome

end Grvy.Ocore
