import Mathlib.Data.List.Basic

/-!
The link between one client and one server.

The client posts requests on a queue. A *push* request is followed by a payload
on a second queue, a *pull* request is answered on a third; the client waits
for the answer before it goes on. The server takes one request at a time and,
for a push, the payload that goes with it. The two queues of requests and
payloads are only loosely coupled: any number of requests may be waiting, and
the payload of the last one may not have been sent yet. The invariant says that
they nevertheless never come apart, and that an answer is computed from exactly
the requests posted before the one it answers.
-/

namespace Grvy.Lib

/-- The requests of type `Q` a client has posted to a server and where they
are, with payloads of type `D` and answers of type `A`. -/
structure Link (Q D A : Type) where
  /-- Every request posted so far, oldest first. -/
  issued : List Q
  /-- The payload the client is about to send. -/
  sending : Option D
  /-- The pull whose answer the client waits for. -/
  awaiting : Option Q
  requests : List Q
  payloads : List D
  answers : List A
  /-- The request the server is working on. -/
  busy : Option Q
  /-- Every request processed so far, oldest first. -/
  served : List Q

namespace Link

variable {Q D A : Type}

/-- A link on which nothing has happened. -/
def empty : Link Q D A :=
  { issued := [], sending := none, awaiting := none, requests := [], payloads := [],
    answers := [], busy := none, served := [] }

variable (payload : Q → Option D) (answer : List Q → Q → A)

/-- The moves of client and server. `payload` tells pushes from pulls, and
`answer` computes the answer to a pull from the requests served before. -/
inductive Step (l : Link Q D A) : Link Q D A → Prop
  | push {q : Q} {d : D} : l.sending = none → l.awaiting = none → payload q = some d →
      Step l { l with
        issued := l.issued ++ [q], requests := l.requests ++ [q], sending := some d }
  | sendPayload {d : D} : l.sending = some d →
      Step l { l with payloads := l.payloads ++ [d], sending := none }
  | pull {q : Q} : l.sending = none → l.awaiting = none → payload q = none →
      Step l { l with
        issued := l.issued ++ [q], requests := l.requests ++ [q], awaiting := some q }
  | accept {q : Q} {rest : List Q} : l.busy = none → l.requests = q :: rest →
      Step l { l with requests := rest, busy := some q }
  | takePayload {q : Q} {d : D} {rest : List D} : l.busy = some q → payload q ≠ none →
      l.payloads = d :: rest →
      Step l { l with payloads := rest, busy := none, served := l.served ++ [q] }
  | reply {q : Q} : l.busy = some q → payload q = none →
      Step l { l with
        answers := l.answers ++ [answer l.served q], busy := none, served := l.served ++ [q] }
  | receive {q : Q} {a : A} {rest : List A} : l.awaiting = some q → l.answers = a :: rest →
      Step l { l with answers := rest, awaiting := none }

/-- The requests that have been posted and not yet served. -/
def outstanding (l : Link Q D A) : List Q := l.busy.toList ++ l.requests

/-- What holds while the client waits for the answer to the pull `q`: either it
is the only pull outstanding and the last request, or everything has been
served and its answer is on the way. -/
def Awaits (l : Link Q D A) (q : Q) : Prop :=
  ∃ before, l.issued = before ++ [q] ∧
    ((∃ pushes, l.outstanding = pushes ++ [q] ∧ (∀ x ∈ pushes, payload x ≠ none) ∧
        l.answers = []) ∨
      (l.outstanding = [] ∧ l.answers = [answer before q]))

/-- The invariant of a link. -/
structure Inv (l : Link Q D A) : Prop where
  issued_eq : l.issued = l.served ++ l.outstanding
  payloads_eq : l.outstanding.filterMap payload = l.payloads ++ l.sending.toList
  /-- A client that waits for no answer has posted nothing but pushes since the
  last one, and if its last request was a pull, everything has been served. -/
  idle : l.awaiting = none → l.answers = [] ∧ (∀ x ∈ l.outstanding, payload x ≠ none) ∧
    ∀ q, l.issued.getLast? = some q → payload q = none → l.outstanding = []
  waiting : ∀ q, l.awaiting = some q →
    l.sending = none ∧ payload q = none ∧ l.Awaits payload answer q

variable {payload answer} {l l' : Link Q D A}

theorem inv_empty : (empty : Link Q D A).Inv payload answer where
  issued_eq := rfl
  payloads_eq := rfl
  idle _ := ⟨rfl, fun x hx => (by cases hx), fun q hq => (by cases hq)⟩
  waiting q hq := by cases hq

/-- A served request moves from the outstanding ones to the served ones. -/
theorem issued_eq_of_busy (inv : l.Inv payload answer) {q : Q} (hbusy : l.busy = some q) :
    l.issued = (l.served ++ [q]) ++ l.requests := by
  rw [inv.issued_eq, outstanding, hbusy, List.append_assoc]
  rfl

/-- A new request is the last of the outstanding ones. -/
theorem Inv.issued_append (inv : l.Inv payload answer) (q : Q) :
    l.issued ++ [q] = l.served ++ (l.busy.toList ++ (l.requests ++ [q])) := by
  rw [inv.issued_eq, outstanding]
  simp

theorem Inv.push (inv : l.Inv payload answer) {q : Q} {d : D} (hsend : l.sending = none)
    (hwait : l.awaiting = none) (hq : payload q = some d) :
    ({ l with
      issued := l.issued ++ [q], requests := l.requests ++ [q], sending := some d } :
        Link Q D A).Inv payload answer where
  issued_eq := inv.issued_append q
  payloads_eq := by
    change (l.busy.toList ++ (l.requests ++ [q])).filterMap payload = l.payloads ++ [d]
    have hold := inv.payloads_eq
    rw [hsend, Option.toList_none, List.append_nil] at hold
    rw [← hold, ← List.append_assoc, List.filterMap_append, ← outstanding]
    simp [hq]
  idle _ := by
    obtain ⟨hanswers, hpush, -⟩ := inv.idle hwait
    refine ⟨hanswers, fun x hx => ?_, fun q' hlast hpull => ?_⟩
    · have hmem : x ∈ l.outstanding ∨ x = q := by
        simpa [outstanding, or_assoc] using hx
      rcases hmem with hmem | rfl
      · exact hpush x hmem
      · simp [hq]
    · obtain rfl : q = q' := by simpa using hlast
      simp [hq] at hpull
  waiting q' hq' := by
    change l.awaiting = some q' at hq'
    simp [hwait] at hq'

theorem Inv.pull (inv : l.Inv payload answer) {q : Q} (hsend : l.sending = none)
    (hwait : l.awaiting = none) (hq : payload q = none) :
    ({ l with
      issued := l.issued ++ [q], requests := l.requests ++ [q], awaiting := some q } :
        Link Q D A).Inv payload answer where
  issued_eq := inv.issued_append q
  payloads_eq := by
    change (l.busy.toList ++ (l.requests ++ [q])).filterMap payload = l.payloads ++ l.sending.toList
    rw [← inv.payloads_eq, ← List.append_assoc, List.filterMap_append, ← outstanding]
    simp [hq]
  idle h := by cases h
  waiting q' hq' := by
    obtain rfl : q = q' := Option.some.inj hq'
    obtain ⟨hanswers, hpush, -⟩ := inv.idle hwait
    refine ⟨hsend, hq, l.issued, rfl, Or.inl ⟨l.outstanding, ?_, hpush, hanswers⟩⟩
    simp [outstanding]

/-- A processed push: the payload taken is the one that belongs to it. -/
theorem Inv.payload_eq (inv : l.Inv payload answer) {q : Q} {d : D} {rest : List D}
    (hbusy : l.busy = some q) (hq : payload q ≠ none) (hpay : l.payloads = d :: rest) :
    payload q = some d ∧ l.requests.filterMap payload = rest ++ l.sending.toList := by
  have hold := inv.payloads_eq
  obtain ⟨d', hd'⟩ := Option.ne_none_iff_exists'.mp hq
  rw [outstanding, hbusy, hpay] at hold
  simp only [Option.toList_some, List.cons_append, List.nil_append, List.filterMap_cons,
    hd'] at hold
  obtain ⟨rfl, hrest⟩ := List.cons.inj hold
  exact ⟨hd', hrest⟩

/-- The server is working on a pull: the client waits for it, it is the only
request outstanding, and everything before it has been served. -/
theorem Inv.busy_pull (inv : l.Inv payload answer) {q : Q} (hbusy : l.busy = some q)
    (hq : payload q = none) :
    l.awaiting = some q ∧ l.requests = [] ∧ l.issued = l.served ++ [q] ∧ l.answers = [] ∧
      l.payloads = [] := by
  have hmem : q ∈ l.outstanding := by simp [outstanding, hbusy]
  cases hwait : l.awaiting with
  | none => exact absurd hq ((inv.idle hwait).2.1 q hmem)
  | some q' =>
      obtain ⟨hsend, hq', before, hissued, hcase⟩ := inv.waiting q' hwait
      rcases hcase with ⟨pushes, hout, hpush, hanswers⟩ | ⟨hout, -⟩
      · rw [outstanding, hbusy] at hout
        cases pushes with
        | nil =>
            obtain ⟨rfl, hempty⟩ := List.cons.inj hout
            change l.requests = [] at hempty
            have hpay := inv.payloads_eq
            rw [outstanding, hbusy, hempty, hsend] at hpay
            refine ⟨rfl, hempty, ?_, hanswers, by simpa [hq] using hpay.symm⟩
            rw [issued_eq_of_busy inv hbusy, hempty, List.append_nil]
        | cons x pushes =>
            obtain ⟨rfl, -⟩ := List.cons.inj hout
            exact absurd hq (hpush _ List.mem_cons_self)
      · rw [hout] at hmem
        cases hmem

/-- The answer the client receives is computed from the requests posted before
the one it waits for. -/
theorem Inv.answer_eq (inv : l.Inv payload answer) {q : Q} {a : A} {rest : List A}
    (hwait : l.awaiting = some q) (hans : l.answers = a :: rest) :
    ∃ before, l.issued = before ++ [q] ∧ a = answer before q ∧ l.outstanding = [] ∧ rest = [] := by
  obtain ⟨-, -, before, hissued, hcase⟩ := inv.waiting q hwait
  rcases hcase with ⟨pushes, -, -, hanswers⟩ | ⟨hout, hanswers⟩
  · rw [hanswers] at hans
    cases hans
  · rw [hanswers] at hans
    obtain ⟨rfl, rfl⟩ := List.cons.inj hans
    exact ⟨before, hissued, rfl, hout, rfl⟩

/-- The invariant only speaks of where the outstanding requests are as a
whole. -/
theorem Inv.accept (inv : l.Inv payload answer) {q : Q} {rest : List Q} (hbusy : l.busy = none)
    (hreq : l.requests = q :: rest) :
    ({ l with requests := rest, busy := some q } : Link Q D A).Inv payload answer := by
  have hout : ({ l with requests := rest, busy := some q } : Link Q D A).outstanding =
      l.outstanding := by
    rw [outstanding, outstanding, hbusy, hreq]
    rfl
  refine ⟨?_, ?_, fun h => ?_, fun q' h => ?_⟩
  · rw [hout]
    exact inv.issued_eq
  · rw [hout]
    exact inv.payloads_eq
  · rw [hout]
    exact inv.idle h
  · rw [Awaits, hout]
    exact inv.waiting q' h

theorem Inv.takePayload (inv : l.Inv payload answer) {q : Q} {d : D} {rest : List D}
    (hbusy : l.busy = some q) (hq : payload q ≠ none) (hpay : l.payloads = d :: rest) :
    ({ l with payloads := rest, busy := none, served := l.served ++ [q] } :
      Link Q D A).Inv payload answer := by
  have hout : l.outstanding = q :: l.requests := by
    rw [outstanding, hbusy]
    rfl
  refine ⟨issued_eq_of_busy inv hbusy, (inv.payload_eq hbusy hq hpay).2, fun h => ?_,
    fun q' h => ?_⟩
  · obtain ⟨hanswers, hpush, hlast⟩ := inv.idle h
    refine ⟨hanswers, fun x hx => hpush x ?_, fun q' hq' hpull => ?_⟩
    · rw [hout]
      exact List.mem_cons_of_mem _ hx
    · have hnone := hlast q' hq' hpull
      rw [hout] at hnone
      cases hnone
  · obtain ⟨hsend, hpull, before, hissued, hcase⟩ := inv.waiting q' h
    refine ⟨hsend, hpull, before, hissued, Or.inl ?_⟩
    rcases hcase with ⟨pushes, hpushes, hall, hanswers⟩ | ⟨hnone, -⟩
    · rw [hout] at hpushes
      cases pushes with
      | nil =>
          obtain ⟨rfl, -⟩ := List.cons.inj hpushes
          exact absurd hpull hq
      | cons x pushes =>
          obtain ⟨-, hrest⟩ := List.cons.inj hpushes
          exact ⟨pushes, hrest, fun y hy => hall y (List.mem_cons_of_mem _ hy), hanswers⟩
    · rw [hout] at hnone
      cases hnone

theorem Inv.reply (inv : l.Inv payload answer) {q : Q} (hbusy : l.busy = some q)
    (hq : payload q = none) :
    ({ l with
      answers := l.answers ++ [answer l.served q], busy := none, served := l.served ++ [q] } :
        Link Q D A).Inv payload answer := by
  obtain ⟨hwait, hreq, hissued, hanswers, hpay⟩ := inv.busy_pull hbusy hq
  obtain ⟨hsend, -, -⟩ := inv.waiting q hwait
  have hout : ({ l with
      answers := l.answers ++ [answer l.served q], busy := none, served := l.served ++ [q] } :
        Link Q D A).outstanding = [] := hreq
  refine ⟨?_, ?_, fun h => ?_, fun q' h => ?_⟩
  · rw [hout, List.append_nil]
    exact hissued
  · rw [hout]
    change [] = l.payloads ++ l.sending.toList
    rw [hpay, hsend]
    rfl
  · change l.awaiting = none at h
    rw [hwait] at h
    cases h
  · obtain rfl : q = q' := Option.some.inj (hwait.symm.trans h)
    refine ⟨hsend, hq, l.served, hissued, Or.inr ⟨hout, ?_⟩⟩
    change l.answers ++ [answer l.served q] = _
    rw [hanswers]
    rfl

theorem Step.inv (h : Step payload answer l l') (inv : l.Inv payload answer) :
    l'.Inv payload answer := by
  cases h with
  | push hsend hwait hq => exact inv.push hsend hwait hq
  | pull hsend hwait hq => exact inv.pull hsend hwait hq
  | accept hbusy hreq => exact inv.accept hbusy hreq
  | takePayload hbusy hq hpay => exact inv.takePayload hbusy hq hpay
  | reply hbusy hq => exact inv.reply hbusy hq
  | @sendPayload d hsend =>
      refine ⟨inv.issued_eq, ?_, inv.idle, fun q h => ?_⟩
      · change l.outstanding.filterMap payload = (l.payloads ++ [d]) ++ []
        rw [inv.payloads_eq, hsend, List.append_nil]
        rfl
      · have hnone := (inv.waiting q h).1
        rw [hsend] at hnone
        cases hnone
  | @receive q a rest hwait hans =>
      obtain ⟨before, -, -, hout, rfl⟩ := inv.answer_eq hwait hans
      refine ⟨inv.issued_eq, inv.payloads_eq, fun _ => ⟨rfl, fun x hx => ?_, fun _ _ _ => hout⟩,
        fun q' h => by cases h⟩
      change x ∈ l.outstanding at hx
      rw [hout] at hx
      cases hx

end Link

end Grvy.Lib
