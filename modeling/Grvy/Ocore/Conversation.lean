import Grvy.Lib.RequestLink
import Grvy.Ocore.Session
import Grvy.Ocore.Steps
import Mathlib.Data.List.Induction

/-!
What a worker and an Ocore task say to each other.

For every worker and every Ocore task the state contains a link: the requests
of the one for the other, on their way, being worked on and served. Every step
of the protocol leaves a link as it is or is a step of it, whatever the other
ranks do, and so the invariant of links holds for all pairs in every reachable
state.
-/

namespace Grvy.Ocore

open Grvy.Lib
open Grvy.Lib.MessagePassing

variable {Block : Type} {job : Job Block} {s s' : OcoreState Block}

/-! ### Links -/

/-- The header is not that of `OCORE_EXIT`. -/
def Posted.isRequest (posted : Posted Block) : Bool := decide (posted.header.msgType ≠ .exit)

/-- The answer to a read after the requests `before`. -/
def answerTo (before : List (Posted Block)) (posted : Posted Block) : Option (Packet Block) :=
  (lastPosted posted.header.offset before).map fun data => { data := data, call := posted.call }

def Worker.sendingTo (task : ℕ) (w : Worker Block) : Option (Packet Block) :=
  match w.phase with
  | .sending task' packet => if task' = task then some packet else none
  | _ => none

def Worker.awaitingFrom (task : ℕ) (w : Worker Block) : Option (Posted Block) :=
  match w.phase with
  | .awaiting posted _ => if posted.header.destination = task then some posted else none
  | _ => none

def OcoreTask.busyFor (rank : ℕ) (v : OcoreTask Block) : Option (Posted Block) :=
  match v.phase with
  | .receiving source posted => if source = rank then some posted else none
  | .replying source posted => if source = rank then some posted else none
  | _ => none

def OcoreTask.servedFor (rank : ℕ) (v : OcoreTask Block) : List (Posted Block) :=
  (v.served.filter fun e => decide (e.source = rank)).map Served.posted

/-- The link between a worker and an Ocore task, from the messages under the
three tags. -/
def link (w : Worker Block) (v : OcoreTask Block) (rank task : ℕ) (headers : List (Posted Block))
    (sends recvs : List (Packet Block)) :
    Link (Posted Block) (Packet Block) (Option (Packet Block)) where
  issued := issuedTo task w.issued
  sending := w.sendingTo task
  awaiting := w.awaitingFrom task
  requests := headers.filter Posted.isRequest
  payloads := sends
  answers := recvs.map some
  busy := v.busyFor rank
  served := v.servedFor rank

/-- The link between two ranks. -/
def linkOf (s : OcoreState Block) (rank task : ℕ) :
    Link (Posted Block) (Packet Block) (Option (Packet Block)) :=
  link (workerOf s rank) (ocoreOf s task) rank task (s.msgs rank task .header)
    (s.msgs rank task .send) (s.msgs task rank .recv)

section Turns

variable {w w' : Worker Block} {v v' : OcoreTask Block} {rank task source : ℕ}
  {headers : List (Posted Block)} {sends recvs : List (Packet Block)}
  {posted : Posted Block} {packet : Packet Block} {client : Client} {popped : Option SizeT}

theorem link_congr_worker (hissued : issuedTo task w'.issued = issuedTo task w.issued)
    (hsending : w'.sendingTo task = w.sendingTo task)
    (hawaiting : w'.awaitingFrom task = w.awaitingFrom task) :
    link w' v rank task headers sends recvs = link w v rank task headers sends recvs := by
  rw [link, hissued, hsending, hawaiting]
  rfl

theorem link_congr_ocore (hbusy : v'.busyFor rank = v.busyFor rank)
    (hserved : v'.servedFor rank = v.servedFor rank) :
    link w v' rank task headers sends recvs = link w v rank task headers sends recvs := by
  rw [link, hbusy, hserved]
  rfl

theorem payload_eq_none_iff : posted.payload = none ↔ posted.data = none :=
  Option.map_eq_none_iff

theorem sendingTo_of_ready (h : w.phase = .ready) (task : ℕ) : w.sendingTo task = none := by
  rw [Worker.sendingTo, h]

theorem awaitingFrom_of_ready (h : w.phase = .ready) (task : ℕ) : w.awaitingFrom task = none := by
  rw [Worker.awaitingFrom, h]

/-- A posted header starts a push or a pull. -/
theorem link_post (hphase : w.phase = .ready) (hrequest : posted.isRequest = true) :
    Link.Step Posted.payload answerTo
      (link w v rank posted.header.destination headers sends recvs)
      (link (w.post client posted popped) v rank posted.header.destination (headers ++ [posted])
        sends recvs) := by
  have hissued : issuedTo posted.header.destination (w.post client posted popped).issued =
      issuedTo posted.header.destination w.issued ++ [posted] := by
    rw [Worker.post, issuedTo_append, if_pos rfl]
  have hheaders : (headers ++ [posted]).filter Posted.isRequest =
      headers.filter Posted.isRequest ++ [posted] := by
    rw [List.filter_append, List.filter_cons_of_pos hrequest, List.filter_nil]
  have hsend := sendingTo_of_ready hphase posted.header.destination
  have hawait := awaitingFrom_of_ready hphase posted.header.destination
  cases hpay : posted.payload with
  | some packet =>
      have hstep : Link.Step Posted.payload answerTo
          (link w v rank posted.header.destination headers sends recvs) _ :=
        .push hsend hawait hpay
      convert hstep using 1
      simp only [link, hissued, hheaders, Link.mk.injEq, true_and, and_true]
      simp [Worker.post, hpay, Worker.sendingTo, Worker.awaitingFrom, hphase]
  | none =>
      have hstep : Link.Step Posted.payload answerTo
          (link w v rank posted.header.destination headers sends recvs) _ :=
        .pull hsend hawait hpay
      convert hstep using 1
      simp only [link, hissued, hheaders, Link.mk.injEq, true_and, and_true]
      simp [Worker.post, hpay, Worker.sendingTo, Worker.awaitingFrom, hphase]

theorem link_post_of_ne (hphase : w.phase = .ready) (hne : posted.header.destination ≠ task) :
    link (w.post client posted popped) v rank task headers sends recvs =
      link w v rank task headers sends recvs := by
  apply link_congr_worker
  · rw [Worker.post, issuedTo_append, if_neg hne]
  · rw [sendingTo_of_ready hphase]
    cases hpay : posted.payload <;> simp [Worker.post, hpay, Worker.sendingTo, hne]
  · rw [awaitingFrom_of_ready hphase]
    cases hpay : posted.payload <;> simp [Worker.post, hpay, Worker.awaitingFrom, hne]

/-- A call is completed that leaves nothing to send or to wait for. -/
theorem link_complete (outcome : Outcome Block) (hsending : w.sendingTo task = none)
    (hawaiting : w.awaitingFrom task = none) :
    link (w.complete outcome) v rank task headers sends recvs =
      link w v rank task headers sends recvs :=
  link_congr_worker rfl hsending.symm hawaiting.symm

theorem link_sendData (hphase : w.phase = .sending task packet) (outcome : Outcome Block) :
    Link.Step Posted.payload answerTo (link w v rank task headers sends recvs)
      (link (w.complete outcome) v rank task headers (sends ++ [packet]) recvs) := by
  have hsend : w.sendingTo task = some packet := by rw [Worker.sendingTo, hphase]; simp
  have hawait : w.awaitingFrom task = none := by rw [Worker.awaitingFrom, hphase]
  have hstep : Link.Step Posted.payload answerTo
      (link w v rank task headers sends recvs) _ :=
    .sendPayload hsend
  convert hstep using 1
  simp only [link, Link.mk.injEq, and_true]
  exact ⟨rfl, rfl, hawait.symm⟩

theorem link_sendData_of_ne {task' : ℕ} (hphase : w.phase = .sending task' packet)
    (hne : task' ≠ task) (outcome : Outcome Block) :
    link (w.complete outcome) v rank task headers sends recvs =
      link w v rank task headers sends recvs := by
  apply link_complete
  · rw [Worker.sendingTo, hphase]
    exact if_neg hne
  · rw [Worker.awaitingFrom, hphase]

theorem link_receive (hphase : w.phase = .awaiting posted popped)
    (hdest : posted.header.destination = task) (data : Block) :
    Link.Step Posted.payload answerTo (link w v rank task headers sends (packet :: recvs))
      (link (w.receive popped data) v rank task headers sends recvs) := by
  have hsend : w.sendingTo task = none := by rw [Worker.sendingTo, hphase]
  have hawait : w.awaitingFrom task = some posted := by
    rw [Worker.awaitingFrom, hphase]
    exact if_pos hdest
  have hstep : Link.Step Posted.payload answerTo
      (link w v rank task headers sends (packet :: recvs)) _ :=
    .receive hawait rfl
  convert hstep using 1
  simp only [link, Link.mk.injEq, and_true]
  exact ⟨rfl, hsend.symm, rfl⟩

theorem link_receive_of_ne (hphase : w.phase = .awaiting posted popped)
    (hne : posted.header.destination ≠ task) (data : Block) :
    link (w.receive popped data) v rank task headers sends recvs =
      link w v rank task headers sends recvs := by
  have hsend : w.sendingTo task = none := by rw [Worker.sendingTo, hphase]
  have hawait : w.awaitingFrom task = none := by
    rw [Worker.awaitingFrom, hphase]
    exact if_neg hne
  exact link_congr_worker rfl hsend.symm hawait.symm

@[simp] theorem sendingTo_teardown (w : Worker Block) (task' : ℕ) (task : ℕ) :
    (w.teardown job task').sendingTo task = none := by
  rw [Worker.teardown, Worker.sendingTo]
  rcases Nat.lt_or_ge task' job.nprocs with hlt | hge
  · rw [if_pos hlt]
  · rw [if_neg (by omega)]

@[simp] theorem awaitingFrom_teardown (w : Worker Block) (task' : ℕ) (task : ℕ) :
    (w.teardown job task').awaitingFrom task = none := by
  rw [Worker.teardown, Worker.awaitingFrom]
  rcases Nat.lt_or_ge task' job.nprocs with hlt | hge
  · rw [if_pos hlt]
  · rw [if_neg (by omega)]

theorem link_teardown {task' : ℕ} (hsending : w.sendingTo task = none)
    (hawaiting : w.awaitingFrom task = none) :
    link (w.teardown job task') v rank task headers sends recvs =
      link w v rank task headers sends recvs := by
  apply link_congr_worker
  · rfl
  · simp [hsending]
  · simp [hawaiting]

/-- The header of `OCORE_EXIT` is no request. -/
theorem link_exit : link w v rank task (headers ++ [exitMessage]) sends recvs =
    link w v rank task headers sends recvs := by
  rw [link, List.filter_append, List.filter_cons_of_neg (by simp [Posted.isRequest, exitMessage]),
    List.filter_nil, List.append_nil]
  rfl

theorem busyFor_of_polling (h : v.phase = .polling) (rank : ℕ) : v.busyFor rank = none := by
  rw [OcoreTask.busyFor, h]

theorem busyFor_of_receiving (h : v.phase = .receiving source posted) (rank : ℕ) :
    v.busyFor rank = if source = rank then some posted else none := by
  rw [OcoreTask.busyFor, h]

theorem busyFor_of_replying (h : v.phase = .replying source posted) (rank : ℕ) :
    v.busyFor rank = if source = rank then some posted else none := by
  rw [OcoreTask.busyFor, h]

/-- What accepting a header does to the phase. -/
theorem accept_phase (job : Job Block) (v : OcoreTask Block) (source : ℕ)
    (hdest : posted.isRequest = true → posted.header.destination = task) :
    (posted.isRequest = false ∧
        v.accept job task source posted = { v with phase := .leaving job.ocoreCollectives }) ∨
      (posted.isRequest = true ∧ posted.data ≠ none ∧
        v.accept job task source posted = { v with phase := .receiving source posted }) ∨
      (posted.isRequest = true ∧ posted.data = none ∧
        v.accept job task source posted = { v with phase := .replying source posted }) := by
  have hdata := posted.data_isSome
  unfold OcoreTask.accept
  cases htype : posted.header.msgType with
  | exit => simp [Posted.isRequest, htype]
  | read =>
      have hrequest : posted.isRequest = true := by simp [Posted.isRequest, htype]
      rw [htype] at hdata
      simp only [MsgType.isWrite, Option.isSome_eq_false_iff, Option.isNone_iff_eq_none] at hdata
      simp [hrequest, hdest hrequest, hdata]
  | _ =>
      have hrequest : posted.isRequest = true := by simp [Posted.isRequest, htype]
      rw [htype] at hdata
      simp [hrequest, hdest hrequest, ← Option.isSome_iff_ne_none, hdata, MsgType.isWrite]

theorem link_accept (hphase : v.phase = .polling)
    (hdest : posted.isRequest = true → posted.header.destination = task) :
    link w (v.accept job task source posted) source task headers sends recvs =
        link w v source task (posted :: headers) sends recvs ∨
      Link.Step Posted.payload answerTo (link w v source task (posted :: headers) sends recvs)
        (link w (v.accept job task source posted) source task headers sends recvs) := by
  have hbusy := busyFor_of_polling hphase source
  rcases accept_phase job v source hdest with
    ⟨hrequest, haccept⟩ | ⟨hrequest, -, haccept⟩ | ⟨hrequest, -, haccept⟩
  · refine Or.inl ?_
    rw [haccept, link, link, List.filter_cons_of_neg (by simp [hrequest]), hbusy]
    rfl
  all_goals
    refine Or.inr ?_
    have hstep : Link.Step Posted.payload answerTo
        (link w v source task (posted :: headers) sends recvs) _ :=
      .accept hbusy (List.filter_cons_of_pos hrequest)
    convert hstep using 1
    rw [haccept]
    simp [link, OcoreTask.busyFor, OcoreTask.servedFor]

theorem link_accept_of_ne (hphase : v.phase = .polling) (hne : source ≠ rank)
    (hdest : posted.isRequest = true → posted.header.destination = task) :
    link w (v.accept job task source posted) rank task headers sends recvs =
      link w v rank task headers sends recvs := by
  have hbusy := busyFor_of_polling hphase rank
  rcases accept_phase job v source hdest with
    ⟨-, haccept⟩ | ⟨-, -, haccept⟩ | ⟨-, -, haccept⟩
  all_goals
    rw [haccept]
    apply link_congr_ocore
    · simp [OcoreTask.busyFor, hphase, hne]
    · rfl

@[simp] theorem servedFor_serve (stored : Option Block) :
    (v.serve source posted stored).servedFor rank =
      if source = rank then v.servedFor rank ++ [posted] else v.servedFor rank := by
  rw [OcoreTask.servedFor, OcoreTask.serve, List.filter_append, List.map_append]
  split
  · rename_i hsource
    simp [OcoreTask.servedFor, hsource]
  · rename_i hsource
    simp [OcoreTask.servedFor, hsource]

theorem link_serve_of_ne (hbusy : v.busyFor rank = none) (hne : source ≠ rank)
    (stored : Option Block) :
    link w (v.serve source posted stored) rank task headers sends recvs =
      link w v rank task headers sends recvs := by
  apply link_congr_ocore
  · rw [hbusy, busyFor_of_polling rfl]
  · simp [hne]

theorem link_store (hphase : v.phase = .receiving source posted) (hdata : posted.data ≠ none)
    (stored : Option Block) :
    Link.Step Posted.payload answerTo (link w v source task headers (packet :: sends) recvs)
      (link w (v.serve source posted stored) source task headers sends recvs) := by
  have hbusy : v.busyFor source = some posted := by
    rw [busyFor_of_receiving hphase, if_pos rfl]
  have hstep : Link.Step Posted.payload answerTo
      (link w v source task headers (packet :: sends) recvs) _ :=
    .takePayload hbusy (fun hnone => hdata (payload_eq_none_iff.mp hnone)) rfl
  convert hstep using 1
  simp only [link, Link.mk.injEq, true_and]
  exact ⟨busyFor_of_polling rfl source, by rw [servedFor_serve, if_pos rfl]⟩

theorem link_reply (hphase : v.phase = .replying source posted) (hdata : posted.data = none)
    (hanswer : answerTo (v.servedFor source) posted = some packet) :
    Link.Step Posted.payload answerTo (link w v source task headers sends recvs)
      (link w (v.serve source posted none) source task headers sends (recvs ++ [packet])) := by
  have hbusy : v.busyFor source = some posted := by
    rw [busyFor_of_replying hphase, if_pos rfl]
  have hstep : Link.Step Posted.payload answerTo
      (link w v source task headers sends recvs) _ :=
    .reply hbusy (payload_eq_none_iff.mpr hdata)
  convert hstep using 1
  simp only [link, Link.mk.injEq, true_and]
  refine ⟨?_, busyFor_of_polling rfl source, by rw [servedFor_serve, if_pos rfl]⟩
  rw [List.map_append, hanswer]
  rfl

end Turns

/-! ### What a step leaves unchanged -/

section Frames

variable {rank rank' : ℕ}

theorem workerOf_of_worker {w : Worker Block}
    (h : s'.loc = Function.update s.loc rank { s.loc rank with worker := w }) (rank' : ℕ) :
    workerOf s' rank' = if rank' = rank then w else workerOf s rank' := by
  rw [workerOf, h, Function.update_apply]
  split <;> rfl

theorem ocoreOf_of_worker {w : Worker Block}
    (h : s'.loc = Function.update s.loc rank { s.loc rank with worker := w }) (rank' : ℕ) :
    ocoreOf s' rank' = ocoreOf s rank' := by
  rw [ocoreOf, h, Function.update_apply]
  split
  · rename_i heq
    rw [heq]
    rfl
  · rfl

theorem ocoreOf_of_ocore {v : OcoreTask Block}
    (h : s'.loc = Function.update s.loc rank { s.loc rank with ocore := v }) (rank' : ℕ) :
    ocoreOf s' rank' = if rank' = rank then v else ocoreOf s rank' := by
  rw [ocoreOf, h, Function.update_apply]
  split <;> rfl

theorem workerOf_of_ocore {v : OcoreTask Block}
    (h : s'.loc = Function.update s.loc rank { s.loc rank with ocore := v }) (rank' : ℕ) :
    workerOf s' rank' = workerOf s rank' := by
  rw [workerOf, h, Function.update_apply]
  split
  · rename_i heq
    rw [heq]
    rfl
  · rfl

/-- The channels of the link between two ranks hold what they held. -/
structure SameChannels (s s' : OcoreState Block) (rank task : ℕ) : Prop where
  headers : s'.msgs rank task .header = s.msgs rank task .header
  sends : s'.msgs rank task .send = s.msgs rank task .send
  recvs : s'.msgs task rank .recv = s.msgs task rank .recv

section Channels

variable {p q task : ℕ} {tag : Tag} {msg : Message Block tag} {sync awaited : Bool}
  {next : Task Block}

/-- A worker sends to one Ocore task. -/
theorem sameChannels_worker_send (htag : tag ≠ .recv) (h : rank = p → task ≠ q) :
    SameChannels s (s.afterSend p q tag msg sync next) rank task where
  headers := State.msgs_afterSend_frame (fun hp hq => absurd hq (h hp)) msg sync
  sends := State.msgs_afterSend_frame (fun hp hq => absurd hq (h hp)) msg sync
  recvs := State.msgs_afterSend_frame (fun _ _ => Ne.symm htag) msg sync

theorem sameChannels_worker_recv (h : rank = p → task ≠ q) :
    SameChannels s (s.afterRecv p q .recv awaited next) rank task where
  headers := State.msgs_afterRecv_frame (fun _ _ => by decide) awaited
  sends := State.msgs_afterRecv_frame (fun _ _ => by decide) awaited
  recvs := State.msgs_afterRecv_frame (fun hq hp => absurd hq (h hp)) awaited

/-- An Ocore task answers one worker. -/
theorem sameChannels_ocore_send {msg : Message Block .recv} (h : task = p → rank ≠ q) :
    SameChannels s (s.afterSend p q .recv msg sync next) rank task where
  headers := State.msgs_afterSend_frame (fun _ _ => by decide) msg sync
  sends := State.msgs_afterSend_frame (fun _ _ => by decide) msg sync
  recvs := State.msgs_afterSend_frame (fun hp hq => absurd hq (h hp)) msg sync

theorem sameChannels_ocore_recv (htag : tag ≠ .recv) (h : task = p → rank ≠ q) :
    SameChannels s (s.afterRecv p q tag awaited next) rank task where
  headers := State.msgs_afterRecv_frame (fun hq hp => absurd hq (h hp)) awaited
  sends := State.msgs_afterRecv_frame (fun hq hp => absurd hq (h hp)) awaited
  recvs := State.msgs_afterRecv_frame (fun _ _ => Ne.symm htag) awaited

end Channels

/-- A link stays as it is or takes a step. -/
def LinkMoves (before after : Link (Posted Block) (Packet Block) (Option (Packet Block))) : Prop :=
  after = before ∨ Link.Step Posted.payload answerTo before after

/-- The turn of a worker that talks to one Ocore task moves no other link than the one to this
task. -/
theorem linkMoves_worker {w t : ℕ} {x : Worker Block}
    (hloc : s'.loc = Function.update s.loc w { s.loc w with worker := x })
    (hchan : ∀ {rank task}, (rank = w → task ≠ t) → SameChannels s s' rank task)
    (hother : ∀ {task}, task ≠ t → ∀ v headers sends recvs,
      link x v w task headers sends recvs = link (workerOf s w) v w task headers sends recvs)
    (hlink : LinkMoves (linkOf s w t) (link x (ocoreOf s t) w t (s'.msgs w t .header)
      (s'.msgs w t .send) (s'.msgs t w .recv))) (rank task : ℕ) :
    LinkMoves (linkOf s rank task) (linkOf s' rank task) := by
  rw [linkOf.eq_def s', workerOf_of_worker hloc, ocoreOf_of_worker hloc]
  by_cases hrank : rank = w
  · subst hrank
    rw [if_pos rfl]
    by_cases htask : task = t
    · subst htask
      exact hlink
    · obtain ⟨hheaders, hsends, hrecvs⟩ := hchan fun _ : rank = rank => htask
      rw [hheaders, hsends, hrecvs, hother htask]
      exact Or.inl rfl
  · have hsame : SameChannels s s' rank task := hchan fun hw => absurd hw hrank
    obtain ⟨hheaders, hsends, hrecvs⟩ := hsame
    rw [if_neg hrank, hheaders, hsends, hrecvs]
    exact Or.inl rfl

/-- The turn of an Ocore task for one worker moves no other link than the one from this worker. -/
theorem linkMoves_ocore {t source : ℕ} {x : OcoreTask Block}
    (hloc : s'.loc = Function.update s.loc t { s.loc t with ocore := x })
    (hchan : ∀ {rank task}, (task = t → rank ≠ source) → SameChannels s s' rank task)
    (hother : ∀ {rank}, rank ≠ source → ∀ w headers sends recvs,
      link w x rank t headers sends recvs = link w (ocoreOf s t) rank t headers sends recvs)
    (hlink : LinkMoves (linkOf s source t) (link (workerOf s source) x source t
      (s'.msgs source t .header) (s'.msgs source t .send) (s'.msgs t source .recv)))
    (rank task : ℕ) : LinkMoves (linkOf s rank task) (linkOf s' rank task) := by
  rw [linkOf.eq_def s', workerOf_of_ocore hloc, ocoreOf_of_ocore hloc]
  by_cases htask : task = t
  · subst htask
    rw [if_pos rfl]
    by_cases hrank : rank = source
    · subst hrank
      exact hlink
    · obtain ⟨hheaders, hsends, hrecvs⟩ := hchan fun _ : task = task => hrank
      rw [hheaders, hsends, hrecvs, hother hrank]
      exact Or.inl rfl
  · have hsame : SameChannels s s' rank task := hchan fun ht => absurd ht htask
    obtain ⟨hheaders, hsends, hrecvs⟩ := hsame
    rw [if_neg htask, hheaders, hsends, hrecvs]
    exact Or.inl rfl

/-- What a collective does to a worker. -/
theorem worker_afterCollective {comm : Comm} (hentered : job.system.Entered s comm) (rank : ℕ) :
    workerOf (job.system.afterCollective s comm) rank = workerOf s rank ∨
      (rank < job.startingRank ∧ (workerOf s rank).phase = .ready ∧ (workerOf s rank).todo = [] ∧
        comm = .work ∧ workerOf (job.system.afterCollective s comm) rank =
          if rank = 0 then (workerOf s rank).teardown job job.startingRank
          else { workerOf s rank with phase := .leaving job.workerCollectives }) ∨
      ∃ rest, (workerOf s rank).phase = .leaving (comm :: rest) ∧
        workerOf (job.system.afterCollective s comm) rank =
          { workerOf s rank with phase := .leaving rest } := by
  by_cases hmem : rank ∈ job.members comm
  · rcases Nat.lt_or_ge rank job.startingRank with hrank | hlow
    · obtain ⟨-, ⟨hphase, htodo, hcomm, hloc⟩ | ⟨rest, hphase, hloc⟩⟩ :=
        worker_of_entered hentered hmem hrank
      · exact Or.inr (Or.inl ⟨hrank, hphase, htodo, hcomm, by rw [workerOf, hloc]⟩)
      · exact Or.inr (Or.inr ⟨rest, hphase, by rw [workerOf, hloc]⟩)
    · obtain ⟨-, rest, -, hloc⟩ :=
        ocore_of_entered hentered hmem hlow (lt_nprocs_of_mem hmem)
      refine Or.inl ?_
      rw [workerOf, hloc]
      rfl
  · refine Or.inl ?_
    rw [workerOf, loc_afterCollective_of_not_mem hmem]
    rfl

theorem ocore_afterCollective {comm : Comm} (hentered : job.system.Entered s comm) (rank : ℕ) :
    ocoreOf (job.system.afterCollective s comm) rank = ocoreOf s rank ∨
      ∃ rest, (ocoreOf s rank).phase = .leaving (comm :: rest) ∧
        ocoreOf (job.system.afterCollective s comm) rank =
          { ocoreOf s rank with phase := .leaving rest } := by
  by_cases hmem : rank ∈ job.members comm
  · rcases Nat.lt_or_ge rank job.startingRank with hrank | hlow
    · refine Or.inl ?_
      obtain ⟨-, ⟨-, -, -, hloc⟩ | ⟨rest, -, hloc⟩⟩ := worker_of_entered hentered hmem hrank
      · rw [ocoreOf, hloc]
        rfl
      · rw [ocoreOf, hloc]
        rfl
    · obtain ⟨-, rest, hphase, hloc⟩ :=
        ocore_of_entered hentered hmem hlow (lt_nprocs_of_mem hmem)
      exact Or.inr ⟨rest, hphase, by rw [ocoreOf, hloc]⟩
  · refine Or.inl ?_
    rw [ocoreOf, loc_afterCollective_of_not_mem hmem]
    rfl

/-- A collective is entered by workers that send nothing and wait for nothing, and
leaves them so. -/
theorem link_afterCollective {comm : Comm} (hentered : job.system.Entered s comm)
    (v : OcoreTask Block) (rank task : ℕ) (headers : List (Posted Block))
    (sends recvs : List (Packet Block)) :
    link (workerOf (job.system.afterCollective s comm) rank) v rank task headers sends recvs =
      link (workerOf s rank) v rank task headers sends recvs := by
  rcases worker_afterCollective hentered rank with
    heq | ⟨-, hphase, -, -, heq⟩ | ⟨rest, hphase, heq⟩
  · rw [heq]
  · rw [heq]
    split
    · exact link_teardown (sendingTo_of_ready hphase task) (awaitingFrom_of_ready hphase task)
    · apply link_congr_worker
      · rfl
      · exact (sendingTo_of_ready hphase task).symm
      · exact (awaitingFrom_of_ready hphase task).symm
  · rw [heq]
    apply link_congr_worker
    · rfl
    · rw [Worker.sendingTo, Worker.sendingTo, hphase]
    · rw [Worker.awaitingFrom, Worker.awaitingFrom, hphase]

theorem linkOf_afterCollective {comm : Comm} (hentered : job.system.Entered s comm)
    (rank task : ℕ) :
    linkOf (job.system.afterCollective s comm) rank task = linkOf s rank task := by
  rw [linkOf, link_afterCollective hentered]
  rcases ocore_afterCollective hentered task with heq | ⟨rest, hphase, heq⟩
  · rw [heq]
    rfl
  · rw [heq]
    apply link_congr_ocore
    · rw [OcoreTask.busyFor, OcoreTask.busyFor, hphase]
    · rfl

end Frames

/-! ### The invariant -/

/-- The links keep their invariant, and every Ocore task works on requests of the
right kind and has stored what was announced. -/
structure Conversing (s : OcoreState Block) : Prop where
  link : ∀ rank task, (linkOf s rank task).Inv Posted.payload answerTo
  addressed : ∀ rank task, ∀ posted ∈ s.msgs rank task .header, posted.isRequest = true →
    posted.header.destination = task
  receiving : ∀ task source posted, (ocoreOf s task).phase = .receiving source posted →
    posted.data ≠ none
  replying : ∀ task source posted, (ocoreOf s task).phase = .replying source posted →
    posted.data = none
  stored : ∀ task, ∀ e ∈ (ocoreOf s task).served, e.stored = e.posted.data

/-- What one served request binds a key to. -/
theorem storedAt_request {e : Served Block} (h : e.stored = e.posted.data) (rank : ℕ)
    (offset : BitVec 32) :
    e.request.storedAt (headerKey rank offset) =
      if e.source = rank then e.posted.dataAt offset else none := by
  rw [Served.request, Posted.dataAt, h]
  cases e.posted.data with
  | none => simp [Request.storedAt]
  | some data =>
      rw [Request.storedAt]
      simp only [headerKey_inj, ite_and]

/-- The map of the task binds the key of a header to what its worker last wrote
under the offset. -/
theorem lastStored_requests {v : OcoreTask Block} (h : ∀ e ∈ v.served, e.stored = e.posted.data)
    (rank : ℕ) (offset : BitVec 32) :
    lastStored (headerKey rank offset) v.requests = lastPosted offset (v.servedFor rank) := by
  rw [OcoreTask.requests, OcoreTask.servedFor]
  generalize v.served = served at h
  induction served using List.reverseRecOn with
  | nil => rfl
  | append_singleton served e ih =>
      have hrest := ih fun e' he' => h e' (List.mem_append_left _ he')
      have hlast : lastStored (headerKey rank offset) ((served ++ [e]).map Served.request) =
          (e.request.storedAt (headerKey rank offset)).or
            (lastStored (headerKey rank offset) (served.map Served.request)) := by
        rw [lastStored, List.map_append, List.reverse_append, List.map_singleton,
          List.reverse_singleton, List.singleton_append, List.findSome?_cons, lastStored]
        cases e.request.storedAt (headerKey rank offset) <;> rfl
      rw [hlast, hrest, storedAt_request (h e (by simp)), List.filter_append, List.map_append]
      by_cases hsource : e.source = rank
      · rw [if_pos hsource, List.filter_cons_of_pos (by simp [hsource]), List.filter_nil,
          List.map_singleton, lastPosted_append]
      · rw [if_neg hsource, List.filter_cons_of_neg (by simp [hsource]), List.filter_nil,
          List.map_nil, List.append_nil, Option.none_or]

/-- A task answers a read with what its worker last wrote there. -/
theorem Conversing.answerTo_eq (hs : Conversing s) {task source : ℕ} {posted : Posted Block}
    {data : Block}
    (h : lastStored (headerKey source posted.header.offset) (ocoreOf s task).requests =
      some data) :
    answerTo ((ocoreOf s task).servedFor source) posted =
      some { data := data, call := posted.call } := by
  rw [answerTo, ← lastStored_requests (hs.stored task), h]
  rfl

theorem msgs_eq_cons {p q : ℕ} {tag : Tag} {e : Envelope (Message Block tag)}
    {rest : List (Envelope (Message Block tag))} (h : s.chan p q tag = e :: rest) :
    s.msgs p q tag = e.msg :: (s.msgs p q tag).tail := by
  rw [State.msgs, h]
  rfl

theorem mem_header_of_chan {source task : ℕ} {e : Envelope (Posted Block)}
    {rest : List (Envelope (Posted Block))} (h : s.chan source task .header = e :: rest) :
    e.msg ∈ s.msgs source task .header := by
  rw [State.msgs, h]
  exact List.mem_cons_self

/-- **One step of the protocol is at most one step of each link.** -/
theorem Job.Step.link (hs : Conversing s) (h : job.Step s s') (rank task : ℕ) :
    LinkMoves (linkOf s rank task) (linkOf s' rank task) := by
  cases h with
  | @post w c calls client posted popped sync hw hready hphase htodo hplan =>
      obtain ⟨-, hexit, -⟩ := Client.planned_of_plan hplan
      refine linkMoves_worker rfl (fun hne => sameChannels_worker_send (by decide) hne)
        (fun hne _ _ _ _ => link_post_of_ne hphase (Ne.symm hne)) (Or.inr ?_) rank task
      rw [linkOf]
      simpa using link_post hphase (decide_eq_true hexit)
  | @emptyRead w c calls hw hready hphase htodo hplan =>
      have hlink : ∀ task v headers sends recvs,
          Grvy.Ocore.link ((workerOf s w).complete (.delivered job.zero)) v w task headers sends
            recvs = Grvy.Ocore.link (workerOf s w) v w task headers sends recvs :=
        fun task _ _ _ _ =>
          link_complete _ (sendingTo_of_ready hphase task) (awaitingFrom_of_ready hphase task)
      refine linkMoves_worker (t := task) (State.loc_afterCompute ..)
        (fun _ => ⟨rfl, rfl, rfl⟩) (fun _ => hlink _) (Or.inl ?_) rank task
      exact hlink task _ _ _ _
  | abort => exact Or.inl rfl
  | @sendData w task' packet sync hw hready hphase =>
      refine linkMoves_worker rfl (fun hne => sameChannels_worker_send (by decide) hne)
        (fun hne _ _ _ _ => link_sendData_of_ne hphase (Ne.symm hne) _) (Or.inr ?_) rank task
      rw [linkOf]
      simpa using link_sendData hphase _
  | @receive w source posted popped e rest hw hready hphase hdest hchan =>
      refine linkMoves_worker rfl (fun hne => sameChannels_worker_recv hne)
        (fun hne _ _ _ _ => link_receive_of_ne hphase (hdest ▸ Ne.symm hne) _) (Or.inr ?_)
        rank task
      rw [linkOf, msgs_eq_cons hchan]
      simpa using link_receive hphase hdest _
  | @exit w task' sync hw hready hphase =>
      have hsend : ∀ task, (workerOf s w).sendingTo task = none := fun task => by
        rw [Worker.sendingTo, hphase]
      have hawait : ∀ task, (workerOf s w).awaitingFrom task = none := fun task => by
        rw [Worker.awaitingFrom, hphase]
      refine linkMoves_worker rfl (fun hne => sameChannels_worker_send (by decide) hne)
        (fun {task} _ _ _ _ _ => link_teardown (hsend task) (hawait task)) (Or.inl ?_) rank task
      rw [link_teardown (hsend _) (hawait _), linkOf]
      simpa using link_exit
  | @poll t source e rest hlow hhigh hready hphase hchan =>
      have hdest := hs.addressed source t e.msg (mem_header_of_chan hchan)
      refine linkMoves_ocore rfl (fun hne => sameChannels_ocore_recv (by decide) hne)
        (fun hne _ _ _ _ => link_accept_of_ne hphase (Ne.symm hne) hdest) ?_ rank task
      rw [linkOf, msgs_eq_cons hchan]
      simpa [LinkMoves] using link_accept hphase hdest
  | @store t source posted e rest hlow hhigh hready hphase hchan =>
      refine linkMoves_ocore rfl (fun hne => sameChannels_ocore_recv (by decide) hne)
        (fun hne _ _ _ _ => link_serve_of_ne ?_ (Ne.symm hne) _) (Or.inr ?_) rank task
      · rw [busyFor_of_receiving hphase, if_neg (Ne.symm hne)]
      · rw [linkOf, msgs_eq_cons hchan]
        simpa using link_store hphase (hs.receiving _ _ _ hphase) _
  | @reply t source posted data sync hlow hhigh hready hphase hlast =>
      refine linkMoves_ocore rfl (fun hne => sameChannels_ocore_send hne)
        (fun hne _ _ _ _ => link_serve_of_ne ?_ (Ne.symm hne) _) (Or.inr ?_) rank task
      · rw [busyFor_of_replying hphase, if_neg (Ne.symm hne)]
      · rw [linkOf]
        simpa using link_reply hphase (hs.replying _ _ _ hphase) (hs.answerTo_eq hlast)
  | ocoreAbort => exact Or.inl rfl
  | collective hentered => exact Or.inl (linkOf_afterCollective hentered rank task)

/-- What a step can put into the queue of headers. -/
theorem Job.Step.header_mem (h : job.Step s s') {rank task : ℕ} {posted : Posted Block}
    (hmem : posted ∈ s'.msgs rank task .header) :
    posted ∈ s.msgs rank task .header ∨ posted.header.destination = task ∨
      posted = exitMessage := by
  cases h with
  | post sync _ _ _ _ _ =>
      rcases State.mem_msgs_afterSend hmem with hold | ⟨hdest, hnew⟩
      · exact Or.inl hold
      · rw [hnew, hdest]
        exact Or.inr (Or.inl rfl)
  | exit sync _ _ _ =>
      rcases State.mem_msgs_afterSend hmem with hold | ⟨-, hnew⟩
      · exact Or.inl hold
      · exact Or.inr (Or.inr hnew)
  | poll _ _ _ _ _ =>
      rw [State.msgs_afterRecv] at hmem
      split at hmem
      · rename_i heq
        exact Or.inl (by rw [heq.1, heq.2]; exact List.mem_of_mem_tail hmem)
      · exact Or.inl hmem
  | sendData sync _ _ _ => exact Or.inl (by simpa using hmem)
  | reply sync _ _ _ _ _ => exact Or.inl (by simpa using hmem)
  | receive _ _ _ _ _ => exact Or.inl (by simpa using hmem)
  | store _ _ _ _ _ => exact Or.inl (by simpa using hmem)
  | _ => exact Or.inl hmem

/-- What a step can do to an Ocore task. -/
theorem Job.Step.ocore_cases (hs : Conversing s) (h : job.Step s s') (task : ℕ) :
    ocoreOf s' task = ocoreOf s task ∨
      (∃ source posted, ocoreOf s' task = (ocoreOf s task).accept job task source posted ∧
        (posted.isRequest = true → posted.header.destination = task)) ∨
      (∃ source posted, ocoreOf s' task =
        (ocoreOf s task).serve source posted posted.data) ∨
      ∃ rest, ocoreOf s' task = { ocoreOf s task with phase := .leaving rest } := by
  cases h with
  | @poll t source e rest hlow hhigh hready hphase hchan =>
      rw [ocoreOf_of_ocore rfl]
      split
      · rename_i htask
        subst htask
        exact Or.inr (Or.inl ⟨source, e.msg, rfl,
          hs.addressed source task e.msg (mem_header_of_chan hchan)⟩)
      · exact Or.inl rfl
  | @store t source posted e rest hlow hhigh hready hphase hchan =>
      rw [ocoreOf_of_ocore rfl]
      split
      · rename_i htask
        subst htask
        -- the data message taken is the one announced by the header
        have hbusy : (linkOf s source task).busy = some posted := by
          change (ocoreOf s task).busyFor source = some posted
          rw [busyFor_of_receiving hphase, if_pos rfl]
        have hpay := ((hs.link source task).payload_eq hbusy
          (fun hnone => hs.receiving _ _ _ hphase (payload_eq_none_iff.mp hnone))
          (msgs_eq_cons hchan)).1
        have hdata : posted.data = some e.msg.data := by
          obtain ⟨data, hdata, hpacket⟩ := Option.map_eq_some_iff.mp hpay
          rw [hdata, ← hpacket]
        exact Or.inr (Or.inr (Or.inl ⟨source, posted, by rw [hdata]⟩))
      · exact Or.inl rfl
  | @reply t source posted data sync hlow hhigh hready hphase hlast =>
      rw [ocoreOf_of_ocore rfl]
      split
      · rename_i htask
        subst htask
        exact Or.inr (Or.inr (Or.inl ⟨source, posted, by rw [hs.replying _ _ _ hphase]⟩))
      · exact Or.inl rfl
  | collective hentered =>
      rcases ocore_afterCollective hentered task with heq | ⟨rest, -, heq⟩
      · exact Or.inl heq
      · exact Or.inr (Or.inr (Or.inr ⟨rest, heq⟩))
  | post sync _ _ _ _ _ => exact Or.inl (ocoreOf_of_worker rfl task)
  | emptyRead _ _ _ _ _ => exact Or.inl (ocoreOf_of_worker rfl task)
  | sendData sync _ _ _ => exact Or.inl (ocoreOf_of_worker rfl task)
  | receive _ _ _ _ _ => exact Or.inl (ocoreOf_of_worker rfl task)
  | exit sync _ _ _ => exact Or.inl (ocoreOf_of_worker rfl task)
  | abort _ _ _ _ _ => exact Or.inl rfl
  | ocoreAbort _ _ _ _ _ => exact Or.inl rfl

theorem Conversing.step (hs : Conversing s) (h : job.Step s s') : Conversing s' where
  link rank task := by
    rcases h.link hs rank task with heq | hstep
    · rw [heq]
      exact hs.link rank task
    · exact hstep.inv (hs.link rank task)
  addressed rank task posted hmem hrequest := by
    rcases h.header_mem hmem with hold | hdest | rfl
    · exact hs.addressed rank task posted hold hrequest
    · exact hdest
    · simp [Posted.isRequest, exitMessage] at hrequest
  receiving task source posted hphase := by
    rcases h.ocore_cases hs task with heq | ⟨source', posted', heq, hdest⟩ |
      ⟨source', posted', heq⟩ | ⟨rest, heq⟩
    · exact hs.receiving task source posted (heq ▸ hphase)
    · rcases accept_phase job (ocoreOf s task) source' hdest with
        ⟨-, haccept⟩ | ⟨-, hdata, haccept⟩ | ⟨-, -, haccept⟩
      all_goals
        rw [heq, haccept] at hphase
        cases hphase
      exact hdata
    · rw [heq] at hphase
      cases hphase
    · rw [heq] at hphase
      cases hphase
  replying task source posted hphase := by
    rcases h.ocore_cases hs task with heq | ⟨source', posted', heq, hdest⟩ |
      ⟨source', posted', heq⟩ | ⟨rest, heq⟩
    · exact hs.replying task source posted (heq ▸ hphase)
    · rcases accept_phase job (ocoreOf s task) source' hdest with
        ⟨-, haccept⟩ | ⟨-, -, haccept⟩ | ⟨-, hdata, haccept⟩
      all_goals
        rw [heq, haccept] at hphase
        cases hphase
      exact hdata
    · rw [heq] at hphase
      cases hphase
    · rw [heq] at hphase
      cases hphase
  stored task e he := by
    rcases h.ocore_cases hs task with heq | ⟨source, posted, heq, hdest⟩ |
      ⟨source, posted, heq⟩ | ⟨rest, heq⟩
    · exact hs.stored task e (heq ▸ he)
    · rcases accept_phase job (ocoreOf s task) source hdest with
        ⟨-, haccept⟩ | ⟨-, -, haccept⟩ | ⟨-, -, haccept⟩
      all_goals
        rw [heq, haccept] at he
        exact hs.stored task e he
    · rw [heq] at he
      rcases List.mem_append.mp he with hold | hnew
      · exact hs.stored task e hold
      · rw [List.mem_singleton.mp hnew]
    · rw [heq] at he
      exact hs.stored task e he

theorem conversing_init (job : Job Block) : Conversing job.initState where
  link _ _ := Link.inv_empty
  addressed _ _ _ hmem _ := by cases hmem
  receiving _ _ _ hphase := by cases hphase
  replying _ _ _ hphase := by cases hphase
  stored _ _ hmem := by cases hmem

/-- In every reachable state the links keep their invariant. -/
theorem Job.Reachable.conversing (h : job.Reachable s) : Conversing s :=
  h.invariant (conversing_init job) fun _ _ _ hs hstep => hs.step hstep

end Grvy.Ocore
