import Grvy.Ocore.Conversation

/-!
Every worker follows its session.

Whatever the other ranks do, a worker sends the requests and returns the
outcomes of the session of its program. Between the two messages of a write and
while it waits for an answer it is ahead of the session by the one request it
has sent.
-/

namespace Grvy.Ocore

open Grvy.Lib
open Grvy.Lib.MessagePassing

variable {Block : Type} {job : Job Block} {rank : ℕ} {s s' : OcoreState Block}

/-- The worker has sent `posted` in its current call, from the session `ss`. -/
structure Worker.Ahead (job : Job Block) (rank : ℕ) (ss : Session Block) (w : Worker Block)
    (posted : Posted Block) (popped : Option SizeT) : Prop where
  plan : ∃ c calls, w.todo = c :: calls ∧
    ss.client.plan job rank ss.returned.length c = .request w.client posted popped
  issued : w.issued = ss.issued ++ [posted]

/-- Where a worker is with respect to a session. -/
def Worker.Stage (job : Job Block) (rank : ℕ) (ss : Session Block) (w : Worker Block) : Prop :=
  match w.phase with
  | .ready => w.client = ss.client ∧ w.issued = ss.issued
  | .sending task packet => ∃ posted, w.Ahead job rank ss posted none ∧
      posted.payload = some packet ∧ posted.header.destination = task
  | .awaiting posted popped => w.Ahead job rank ss posted popped ∧ posted.payload = none
  | .exiting _ | .leaving _ => w.client = ss.client ∧ w.issued = ss.issued ∧ w.todo = []

/-- The worker has completed the calls of a session. -/
structure Worker.Follows (job : Job Block) (rank : ℕ) (ss : Session Block) (w : Worker Block) :
    Prop where
  run : Session.runAll job rank ((job.program rank).take w.returned.length) .new = some ss
  returned : w.returned = ss.returned
  todo : w.todo = (job.program rank).drop w.returned.length
  stage : w.Stage job rank ss

section Turns

variable {ss ss' : Session Block} {w : Worker Block} {c : Call Block} {calls : List (Call Block)}
  {client : Client} {posted : Posted Block} {popped : Option SizeT}

theorem Worker.Follows.sound (h : w.Follows job rank ss) : ss.Sound job :=
  Session.runAll_invariant (fun _ _ _ hss hrun => hss.run hrun) (Session.sound_new job) h.run

theorem Worker.Follows.numbered (h : w.Follows job rank ss) : ss.Numbered :=
  Session.runAll_invariant (fun _ _ _ hss hrun => hss.run hrun) Session.numbered_new h.run

theorem Worker.Follows.of_ready (h : w.Follows job rank ss) (hphase : w.phase = .ready) :
    w.client = ss.client ∧ w.issued = ss.issued := by
  have hstage := h.stage
  rwa [Worker.Stage, hphase] at hstage

theorem Worker.Follows.of_sending (h : w.Follows job rank ss) {task : ℕ} {packet : Packet Block}
    (hphase : w.phase = .sending task packet) :
    ∃ posted, w.Ahead job rank ss posted none ∧ posted.payload = some packet ∧
      posted.header.destination = task := by
  have hstage := h.stage
  rwa [Worker.Stage, hphase] at hstage

theorem Worker.Follows.of_awaiting (h : w.Follows job rank ss)
    (hphase : w.phase = .awaiting posted popped) :
    w.Ahead job rank ss posted popped ∧ posted.payload = none := by
  have hstage := h.stage
  rwa [Worker.Stage, hphase] at hstage

theorem Worker.Follows.of_finalizing (h : w.Follows job rank ss)
    (hphase : (∃ task, w.phase = .exiting task) ∨ ∃ rest, w.phase = .leaving rest) :
    w.client = ss.client ∧ w.issued = ss.issued ∧ w.todo = [] := by
  have hstage := h.stage
  rcases hphase with ⟨task, hphase⟩ | ⟨rest, hphase⟩
  · rwa [Worker.Stage, hphase] at hstage
  · rwa [Worker.Stage, hphase] at hstage

/-- A worker has sent the requests of its session, and perhaps one more. -/
theorem Worker.Follows.ahead_or (h : w.Follows job rank ss) :
    (w.client = ss.client ∧ w.issued = ss.issued) ∨
      ∃ posted popped, w.Ahead job rank ss posted popped ∧
        ((∃ task packet, w.phase = .sending task packet) ∨ posted.payload = none) := by
  cases hphase : w.phase with
  | ready => exact Or.inl (h.of_ready hphase)
  | sending task packet =>
      obtain ⟨posted, hahead, -, -⟩ := h.of_sending hphase
      exact Or.inr ⟨posted, none, hahead, Or.inl ⟨task, packet, rfl⟩⟩
  | awaiting posted popped =>
      obtain ⟨hahead, hpay⟩ := h.of_awaiting hphase
      exact Or.inr ⟨posted, popped, hahead, Or.inr hpay⟩
  | exiting task =>
      obtain ⟨hclient, hissued, -⟩ := h.of_finalizing (Or.inl ⟨task, hphase⟩)
      exact Or.inl ⟨hclient, hissued⟩
  | leaving rest =>
      obtain ⟨hclient, hissued, -⟩ := h.of_finalizing (Or.inr ⟨rest, hphase⟩)
      exact Or.inl ⟨hclient, hissued⟩

/-- A completed call takes the session one call further. -/
theorem Worker.Follows.advance (h : w.Follows job rank ss) (htodo : w.todo = c :: calls)
    (hrun : ss.run job rank c = some ss') (n : ℕ) (hn : n = w.returned.length + 1) :
    Session.runAll job rank ((job.program rank).take n) .new = some ss' ∧
      calls = (job.program rank).drop n := by
  have hdrop := h.todo
  rw [htodo] at hdrop
  have hc : (job.program rank)[w.returned.length]? = some c := by
    rw [← List.head?_drop, ← hdrop]
    rfl
  refine ⟨?_, ?_⟩
  · rw [hn, List.take_add_one, hc, Session.runAll_append, h.run]
    simp [Session.runAll, hrun]
  · rw [hn, ← List.drop_drop, ← hdrop]
    rfl

theorem follows_init (job : Job Block) (rank : ℕ) :
    (job.initTask rank).worker.Follows job rank .new where
  run := rfl
  returned := rfl
  todo := rfl
  stage := ⟨rfl, rfl⟩

theorem Worker.Follows.post (h : w.Follows job rank ss) (hphase : w.phase = .ready)
    (htodo : w.todo = c :: calls)
    (hplan : w.client.plan job rank w.returned.length c = .request client posted popped) :
    (w.post client posted popped).Follows job rank ss where
  run := h.run
  returned := h.returned
  todo := h.todo
  stage := by
    obtain ⟨hclient, hissued⟩ := h.of_ready hphase
    rw [hclient, h.returned] at hplan
    have hahead : (w.post client posted popped).Ahead job rank ss posted popped :=
      ⟨⟨c, calls, htodo, hplan⟩, by rw [← hissued]; rfl⟩
    cases hpay : posted.payload with
    | none =>
        have hphase' : (w.post client posted popped).phase = .awaiting posted popped := by
          simp [Worker.post, hpay]
        rw [Worker.Stage, hphase']
        exact ⟨hahead, hpay⟩
    | some packet =>
        have hphase' : (w.post client posted popped).phase =
            .sending posted.header.destination packet := by
          simp [Worker.post, hpay]
        rw [Worker.Stage, hphase']
        refine ⟨posted, ?_, hpay, rfl⟩
        cases (Client.planned_of_plan hplan).1 with
        | write _ _ _ _ => exact hahead
        | read hdata _ _ => simp [Posted.payload, hdata] at hpay
        | pop hdata _ _ => simp [Posted.payload, hdata] at hpay

/-- The call is completed as the session completes it. -/
theorem Worker.Follows.complete (h : w.Follows job rank ss) (htodo : w.todo = c :: calls)
    {outcome : Outcome Block}
    (hrun : ss.run job rank c =
      some { client := client, issued := w.issued, returned := ss.returned ++ [outcome] }) :
    ({ w with client := client }.complete outcome).Follows job rank
      { client := client, issued := w.issued, returned := ss.returned ++ [outcome] } := by
  have hlength : (w.returned ++ [outcome]).length = w.returned.length + 1 := by simp
  obtain ⟨hadvance, hcalls⟩ := h.advance htodo hrun _ hlength
  refine ⟨hadvance, ?_, ?_, ⟨rfl, rfl⟩⟩
  · rw [Worker.complete, h.returned]
  · rw [Worker.complete, htodo]
    exact hcalls

theorem Worker.Follows.emptyRead (h : w.Follows job rank ss) (hphase : w.phase = .ready)
    (htodo : w.todo = c :: calls)
    (hplan : w.client.plan job rank w.returned.length c = .emptyRead) :
    ∃ ss', (w.complete (.delivered job.zero)).Follows job rank ss' := by
  obtain ⟨hclient, hissued⟩ := h.of_ready hphase
  have hrun : ss.run job rank c = some
      { client := w.client, issued := w.issued,
        returned := ss.returned ++ [.delivered job.zero] } := by
    rw [Session.run, ← hclient, ← h.returned, hplan, hissued]
  exact ⟨_, h.complete htodo hrun⟩

/-- A request that is answered as in the session completes the call. -/
theorem Worker.Ahead.run (h : w.Follows job rank ss) (hahead : w.Ahead job rank ss posted popped)
    {outcome : Outcome Block} (hanswer : ss.answer posted popped = some outcome) :
    ∃ ss', ({ w with client := w.client.forget popped }.complete outcome).Follows job rank
      ss' := by
  obtain ⟨⟨c, calls, htodo, hplan⟩, hissued⟩ := hahead
  have hrun : ss.run job rank c = some
      { client := w.client.forget popped, issued := w.issued,
        returned := ss.returned ++ [outcome] } := by
    rw [Session.run, hplan, hissued]
    simp [hanswer]
  exact ⟨_, h.complete htodo hrun⟩

theorem Worker.Follows.sendData (h : w.Follows job rank ss) {task : ℕ} {packet : Packet Block}
    (hphase : w.phase = .sending task packet) :
    ∃ ss', (w.complete .written).Follows job rank ss' := by
  obtain ⟨posted, hahead, hpay, -⟩ := h.of_sending hphase
  obtain ⟨data, hdata, -⟩ := Option.map_eq_some_iff.mp hpay
  exact hahead.run h (by rw [Session.answer, hdata])

theorem Worker.Follows.receive (h : w.Follows job rank ss)
    (hphase : w.phase = .awaiting posted popped) {before : List (Posted Block)} {data : Block}
    (hbefore : issuedTo posted.header.destination w.issued = before ++ [posted])
    (hlast : lastPosted posted.header.offset before = some data) :
    ∃ ss', (w.receive popped data).Follows job rank ss' := by
  obtain ⟨hahead, hpay⟩ := h.of_awaiting hphase
  have hissued : issuedTo posted.header.destination ss.issued = before := by
    rw [hahead.issued, issuedTo_append, if_pos rfl] at hbefore
    exact List.append_cancel_right hbefore
  apply hahead.run h
  rw [Session.answer, payload_eq_none_iff.mp hpay, hissued, hlast]
  rfl

theorem Worker.Follows.leave (h : w.Follows job rank ss) {phase : WorkerPhase Block}
    (hphase : (w.phase = .ready ∧ w.todo = []) ∨ (∃ task, w.phase = .exiting task) ∨
      ∃ rest, w.phase = .leaving rest)
    (hphase' : (∃ task, phase = .exiting task) ∨ ∃ rest, phase = .leaving rest) :
    ({ w with phase := phase } : Worker Block).Follows job rank ss where
  run := h.run
  returned := h.returned
  todo := h.todo
  stage := by
    have hquiet : w.client = ss.client ∧ w.issued = ss.issued ∧ w.todo = [] := by
      rcases hphase with ⟨hready, htodo⟩ | hfinalizing
      · obtain ⟨hclient, hissued⟩ := h.of_ready hready
        exact ⟨hclient, hissued, htodo⟩
      · exact h.of_finalizing hfinalizing
    rcases hphase' with ⟨task, rfl⟩ | ⟨rest, rfl⟩
    · exact hquiet
    · exact hquiet

end Turns

theorem teardown_phase (job : Job Block) (task : ℕ) (w : Worker Block) :
    (w.teardown job task = { w with phase := .exiting task } ∧ task < job.nprocs) ∨
      (w.teardown job task = { w with phase := .leaving job.workerCollectives } ∧
        job.nprocs ≤ task) := by
  rw [Worker.teardown]
  rcases Nat.lt_or_ge task job.nprocs with hlt | hge
  · rw [if_pos hlt]
    exact Or.inl ⟨rfl, hlt⟩
  · rw [if_neg (by omega)]
    exact Or.inr ⟨rfl, hge⟩

theorem Worker.Follows.teardown {ss : Session Block} {w : Worker Block}
    (h : w.Follows job rank ss)
    (hphase : (w.phase = .ready ∧ w.todo = []) ∨ (∃ task, w.phase = .exiting task) ∨
      ∃ rest, w.phase = .leaving rest) (task : ℕ) :
    (w.teardown job task).Follows job rank ss := by
  rcases teardown_phase job task w with ⟨heq, -⟩ | ⟨heq, -⟩
  · rw [heq]
    exact h.leave hphase (Or.inl ⟨task, rfl⟩)
  · rw [heq]
    exact h.leave hphase (Or.inr ⟨_, rfl⟩)

/-- Every worker follows some session of its program. -/
def Following (job : Job Block) (s : OcoreState Block) : Prop :=
  ∀ rank, ∃ ss, (workerOf s rank).Follows job rank ss

theorem Following.step (hfollow : Following job s) (hs : Conversing s) (h : job.Step s s') :
    Following job s' := by
  intro rank
  obtain ⟨ss, hss⟩ := hfollow rank
  cases h with
  | @post w c calls client posted popped sync hw hready hphase htodo hplan =>
      rw [workerOf_of_worker rfl]
      split
      · rename_i heq
        subst heq
        exact ⟨ss, hss.post hphase htodo hplan⟩
      · exact ⟨ss, hss⟩
  | @emptyRead w c calls hw hready hphase htodo hplan =>
      rw [workerOf_of_worker rfl]
      split
      · rename_i heq
        subst heq
        exact hss.emptyRead hphase htodo hplan
      · exact ⟨ss, hss⟩
  | @sendData w task packet sync hw hready hphase =>
      rw [workerOf_of_worker rfl]
      split
      · rename_i heq
        subst heq
        exact hss.sendData hphase
      · exact ⟨ss, hss⟩
  | @receive w source posted popped e rest hw hready hphase hdest hchan =>
      rw [workerOf_of_worker rfl]
      split
      · rename_i heq
        subst heq
        subst hdest
        have hawait : (linkOf s rank posted.header.destination).awaiting = some posted := by
          change (workerOf s rank).awaitingFrom posted.header.destination = some posted
          rw [Worker.awaitingFrom, hphase]
          exact if_pos rfl
        have hans : (linkOf s rank posted.header.destination).answers =
            some e.msg :: ((s.msgs posted.header.destination rank .recv).tail.map some) := by
          change (s.msgs posted.header.destination rank .recv).map some = _
          rw [msgs_eq_cons hchan]
          rfl
        obtain ⟨before, hbefore, hanswer, -, -⟩ :=
          (hs.link rank posted.header.destination).answer_eq hawait hans
        obtain ⟨data, hlast, hpacket⟩ := Option.map_eq_some_iff.mp hanswer.symm
        have hdata : e.msg.data = data := by rw [← hpacket]
        rw [hdata]
        exact hss.receive hphase hbefore hlast
      · exact ⟨ss, hss⟩
  | @exit w task sync hw hready hphase =>
      rw [workerOf_of_worker rfl]
      split
      · rename_i heq
        subst heq
        exact ⟨ss, hss.teardown (Or.inr (Or.inl ⟨task, hphase⟩)) (task + 1)⟩
      · exact ⟨ss, hss⟩
  | collective hentered =>
      rcases worker_afterCollective hentered rank with
        heq | ⟨-, hphase, htodo, -, heq⟩ | ⟨rest, hphase, heq⟩
      · rw [heq]
        exact ⟨ss, hss⟩
      · rw [heq]
        split
        · exact ⟨ss, hss.teardown (Or.inl ⟨hphase, htodo⟩) job.startingRank⟩
        · exact ⟨ss, hss.leave (Or.inl ⟨hphase, htodo⟩) (Or.inr ⟨_, rfl⟩)⟩
      · rw [heq]
        exact ⟨ss, hss.leave (Or.inr (Or.inr ⟨_, hphase⟩)) (Or.inr ⟨_, rfl⟩)⟩
  | poll _ _ _ _ _ =>
      rw [workerOf_of_ocore rfl]
      exact ⟨ss, hss⟩
  | store _ _ _ _ _ =>
      rw [workerOf_of_ocore rfl]
      exact ⟨ss, hss⟩
  | reply sync _ _ _ _ _ =>
      rw [workerOf_of_ocore rfl]
      exact ⟨ss, hss⟩
  | abort _ _ _ _ _ => exact ⟨ss, hss⟩
  | ocoreAbort _ _ _ _ _ => exact ⟨ss, hss⟩

/-- **In every reachable state every worker follows its session.** -/
theorem Job.Reachable.following (h : job.Reachable s) : Following job s :=
  h.invariant (fun rank => ⟨.new, follows_init job rank⟩)
    fun _ _ hreach hs hstep => hs.step hreach.conversing hstep

/-- The worker part of an Ocore task is never used. -/
theorem Job.Reachable.workerOf_of_ge (h : job.Reachable s) (hrank : job.startingRank ≤ rank) :
    workerOf s rank = (job.initTask rank).worker := by
  refine h.invariant (I := fun s => workerOf s rank = (job.initTask rank).worker) rfl ?_
  intro s s' _ hs hstep
  rw [← hs]
  cases hstep with
  | post sync hw _ _ _ _ =>
      rw [workerOf_of_worker rfl]
      exact if_neg (by omega)
  | emptyRead hw _ _ _ _ =>
      rw [workerOf_of_worker rfl]
      exact if_neg (by omega)
  | sendData sync hw _ _ =>
      rw [workerOf_of_worker rfl]
      exact if_neg (by omega)
  | receive hw _ _ _ _ =>
      rw [workerOf_of_worker rfl]
      exact if_neg (by omega)
  | exit sync hw _ _ =>
      rw [workerOf_of_worker rfl]
      exact if_neg (by omega)
  | poll _ _ _ _ _ => exact workerOf_of_ocore rfl rank
  | store _ _ _ _ _ => exact workerOf_of_ocore rfl rank
  | reply sync _ _ _ _ _ => exact workerOf_of_ocore rfl rank
  | abort _ _ _ _ _ => rfl
  | ocoreAbort _ _ _ _ _ => rfl
  | collective hentered =>
      rcases worker_afterCollective hentered rank with
        heq | ⟨hw, -, -, -, -⟩ | ⟨rest, hphase, -⟩
      · exact heq
      · omega
      · rw [hs] at hphase
        cases hphase

end Grvy.Ocore
