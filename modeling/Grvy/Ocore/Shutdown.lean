import Grvy.Ocore.ExitOrder
import Grvy.Ocore.ReadYourWrites

/-!
What becomes of the last requests at shutdown.

The barrier in `Finalize` is there to let all outstanding requests complete, but
it waits for the workers only, and a worker goes on as soon as its messages are
buffered. The header to exit comes from the master, so it may overtake the last
headers of the other workers. What saves a request is a read behind it: the
worker waits for the answer, and the task answers only after everything the
worker sent before.
-/

namespace Grvy.Ocore

open Grvy.Lib
open Grvy.Lib.MessagePassing

variable {Block : Type} {job : Job Block} {s : OcoreState Block}

/-- The requests that the program of a worker leads to; none if it aborts. -/
def Job.requests (job : Job Block) (rank : ℕ) : List (Posted Block) :=
  match Session.runAll job rank (job.program rank) .new with
  | some ss => ss.issued
  | none => []

/-- The last request of the worker to each task, if there is one, is a read. -/
def Job.EndsReading (job : Job Block) (rank : ℕ) : Prop :=
  ∀ task posted, (issuedTo task (job.requests rank)).getLast? = some posted →
    posted.header.msgType = .read

/-- Every request for an Ocore task that has left has been processed. -/
def NothingLost (job : Job Block) (s : OcoreState Block) : Prop :=
  ∀ t, job.startingRank ≤ t → t < job.nprocs → (ocoreOf s t).phase.hasLeft = true →
    ∀ w < job.startingRank, issuedTo t (workerOf s w).issued = (ocoreOf s t).servedFor w

/-- A worker past its barrier has sent all requests of its program. -/
theorem Worker.Follows.finished {rank : ℕ} {ss : Session Block} {w : Worker Block}
    (h : w.Follows job rank ss)
    (hphase : (∃ task, w.phase = .exiting task) ∨ ∃ rest, w.phase = .leaving rest) :
    Session.runAll job rank (job.program rank) .new = some ss ∧ w.issued = ss.issued := by
  obtain ⟨-, hissued, htodo⟩ := h.of_finalizing hphase
  refine ⟨?_, hissued⟩
  have hdrop := h.todo
  rw [htodo] at hdrop
  have hrun := h.run
  rwa [List.take_of_length_le (List.drop_eq_nil_iff.mp hdrop.symm)] at hrun

theorem awaitingFrom_of_finalizing {w : Worker Block}
    (hphase : (∃ task, w.phase = .exiting task) ∨ ∃ rest, w.phase = .leaving rest) (t : ℕ) :
    w.awaitingFrom t = none := by
  rcases hphase with ⟨task, hphase⟩ | ⟨rest, hphase⟩
  · rw [Worker.awaitingFrom, hphase]
  · rw [Worker.awaitingFrom, hphase]

/-- When a task has left, all workers are past their barrier and the master has
nothing more in its queue. -/
theorem Ending.of_hasLeft (hs : Ending job s) {t : ℕ} (hlow : job.startingRank ≤ t)
    (hhigh : t < job.nprocs) (hleft : (ocoreOf s t).phase.hasLeft = true) :
    s.msgs 0 t .header = [] ∧ ∀ w < job.startingRank,
      (∃ task, (workerOf s w).phase = .exiting task) ∨
        ∃ rest, (workerOf s w).phase = .leaving rest := by
  cases hs.order.status t hlow hhigh with
  | untold _ hnot _ => simp [hleft] at hnot
  | told _ _ hnot _ _ => simp [hleft] at hnot
  | left htold _ _ hheaders =>
      refine ⟨hheaders, fun w hw => (exits_isSome_iff job).mp ?_⟩
      exact hs.order.uniform 0 w job.startingRank_pos hw (by rw [htold]; rfl)

/-- **Shutdown.** If no program aborts, a request can only be lost if it is one of
the last writes of a worker other than the master: where each of these workers
ends with a read at every task that it uses, nothing is lost. -/
theorem nothing_lost (hreach : job.Reachable s)
    (hends : (∃ w < job.startingRank, job.ProgramAborts w) ∨
      ∀ w < job.startingRank, w ≠ 0 → job.EndsReading w) : NothingLost job s := by
  intro t hlow hhigh hleft w hw
  obtain ⟨hheaders, hpast⟩ := hreach.ending.of_hasLeft hlow hhigh hleft
  have hlink := hreach.conversing.link w t
  suffices hout : (linkOf s w t).outstanding = [] by
    have hissued := hlink.issued_eq
    rwa [hout, List.append_nil] at hissued
  have hbusy : (ocoreOf s t).busyFor w = none := by
    rw [OcoreTask.busyFor]
    cases hphase : (ocoreOf s t).phase with
    | polling => rfl
    | leaving rest => rfl
    | receiving source posted => simp [hphase, OcorePhase.hasLeft] at hleft
    | replying source posted => simp [hphase, OcorePhase.hasLeft] at hleft
  rcases eq_or_ne w 0 with rfl | hzero
  · change ((ocoreOf s t).busyFor 0).toList ++
      (s.msgs 0 t .header).filter Posted.isRequest = []
    rw [hbusy, hheaders]
    rfl
  · have hidle := hlink.idle (awaitingFrom_of_finalizing (hpast w hw) t)
    have hends' : job.EndsReading w := by
      rcases hends with ⟨w', hw', haborts⟩ | hends
      · -- a program that aborts never reaches the barrier
        obtain ⟨ss, hfollow⟩ := hreach.following w'
        have hrun := (hfollow.finished (hpast w' hw')).1
        rw [(Session.runAll_eq_none_iff_programAborts job w').mpr haborts] at hrun
        cases hrun
      · exact hends w hw hzero
    obtain ⟨ss, hfollow⟩ := hreach.following w
    obtain ⟨hrun, hissued⟩ := hfollow.finished (hpast w hw)
    have hrequests : issuedTo t (job.requests w) = (linkOf s w t).issued := by
      rw [Job.requests, hrun]
      exact congrArg (issuedTo t) hissued.symm
    cases hlast : (linkOf s w t).issued.getLast? with
    | none =>
        have hempty := hlink.issued_eq
        rw [List.getLast?_eq_none_iff.mp hlast] at hempty
        exact (List.append_eq_nil_iff.mp hempty.symm).2
    | some posted =>
        have hread := hends' t posted (hrequests ▸ hlast)
        refine hidle.2.2 posted hlast (payload_eq_none_iff.mpr ?_)
        have hdata := posted.data_isSome
        rw [hread] at hdata
        simpa [MsgType.isWrite] using hdata

theorem twoReaders_nothing_lost :
    ∃ s, twoReaders.Reachable s ∧ (ocoreOf s 2).phase.hasLeft = true ∧
      NothingLost twoReaders s := by
  have hrun : (twoReaders.system.performAll
      [.send 0 false, .send 1 true, .recv 2 1, .send 0 true, .send 1 false, .recv 2 1,
        .recv 2 0, .recv 2 0, .send 0 true, .recv 2 0, .send 2 false, .recv 0 2,
        .send 1 false, .recv 2 1, .send 2 true, .recv 1 2, .collective .work, .send 0 false,
        .recv 2 0]
      twoReaders.initState).any (fun s => (ocoreOf s 2).phase.hasLeft) = true := by
    decide +kernel
  obtain ⟨s, hs, hleft⟩ := (Option.any_eq_true _ _).mp hrun
  have hreach : twoReaders.Reachable s := System.reachable_of_performAll .init hs
  refine ⟨s, hreach, hleft, nothing_lost hreach (Or.inr fun w hw hzero => ?_)⟩
  obtain rfl : w = 1 := by
    change w < 2 at hw
    omega
  have hrequests : twoReaders.requests 1 =
      [writeToPool 2 true 0 11 0, readFromPool 2 0 1] := by decide +kernel
  intro task posted hlast
  rw [hrequests] at hlast
  rcases eq_or_ne 2 task with rfl | htask
  · obtain rfl : readFromPool 2 0 1 = posted := Option.some.inj hlast
    rfl
  · have hnone : issuedTo task [writeToPool 2 true 0 11 0, readFromPool 2 0 1] = [] :=
      List.filter_eq_nil_iff.mpr fun posted' hmem hdest => by
        rcases List.mem_cons.mp hmem with rfl | hmem
        · exact htask (of_decide_eq_true hdest)
        · obtain rfl := List.mem_singleton.mp hmem
          exact htask (of_decide_eq_true hdest)
    rw [hnone] at hlast
    cases hlast

/-- Worker 1 writes a record and is done. -/
def lateWriter : Job ℕ := smallJob 1 fun w => if w = 1 then [.write 0 7] else []

/-- Both messages of worker 1 are buffered, and the task takes the header to exit
first. -/
theorem late_write_lost : ∃ s, lateWriter.Reachable s ∧ ¬NothingLost lateWriter s := by
  have hrun : (lateWriter.system.performAll
      [.send 1 false, .send 1 false, .collective .work, .send 0 false, .recv 2 0]
      lateWriter.initState).any (fun s => (ocoreOf s 2).phase.hasLeft &&
        (issuedTo 2 (workerOf s 1).issued).length == 1 &&
        ((ocoreOf s 2).servedFor 1).length == 0) = true := by
    decide +kernel
  obtain ⟨s, hs, htest⟩ := (Option.any_eq_true _ _).mp hrun
  have hreach : lateWriter.Reachable s := System.reachable_of_performAll .init hs
  simp only [Bool.and_eq_true, beq_iff_eq] at htest
  obtain ⟨⟨hleft, hissued⟩, hserved⟩ := htest
  refine ⟨s, hreach, fun hlost => ?_⟩
  have heq := congrArg List.length (hlost 2 (by decide) (by decide) hleft 1 (by decide))
  omega

end Grvy.Ocore
