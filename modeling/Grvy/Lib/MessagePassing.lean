import Mathlib.Logic.Function.Basic
import Mathlib.Data.List.Basic

/-!
Message passing between processes that each follow a program of their own.

A process sends a message under a tag to a process it names, receives a
message under a tag from a process it names or from any process, enters a
collective operation, computes, aborts the whole system, or has stopped.
Messages with the same sender, receiver and tag arrive in the order in which
they were sent, and nothing else is promised. A send may return as soon as its
message is buffered, or block its process until the message is received: which
of the two happens is part of the event. A collective operation is completed
by all its members at once.
-/

namespace Grvy.Lib.MessagePassing

/-- A message in a channel, and whether its sender is blocked until it is
received. -/
structure Envelope (α : Type) where
  msg : α
  awaited : Bool

/-- What a process does next. -/
inductive Action (P T C σ : Type) (M : T → Type)
  | send (dest : P) (tag : T) (msg : M tag) (next : σ)
  | recv (source : Option P) (tag : T) (next : P → M tag → σ)
  | collective (comm : C) (next : σ)
  | compute (next : σ)
  | abort
  | stop

/-- The programs of all processes, and the members of the collectives. -/
structure System (P T C σ : Type) (M : T → Type) where
  action : P → σ → Action P T C σ M
  members : C → List P

structure State (P T σ : Type) (M : T → Type) where
  loc : P → σ
  /-- The destination and tag of the send a process is blocked in. -/
  pending : P → Option (P × T)
  chan : P → P → (tag : T) → List (Envelope (M tag))
  aborted : Bool

inductive Event (P C : Type)
  | send (p : P) (sync : Bool)
  | recv (p source : P)
  | collective (comm : C)
  | compute (p : P)
  | abort (p : P)
  deriving DecidableEq

/-- An event in which processes communicate. -/
def Event.isCommunication {P C : Type} : Event P C → Bool
  | .send _ _ | .recv _ _ | .collective _ => true
  | .compute _ | .abort _ => false

variable {P T C σ : Type} {M : T → Type} [DecidableEq P] [DecidableEq T] [DecidableEq C]

namespace State

/-- The messages in a channel, oldest first. -/
def msgs (s : State P T σ M) (p q : P) (tag : T) : List (M tag) :=
  (s.chan p q tag).map Envelope.msg

/-- Replace the contents of one channel. -/
def setChan (s : State P T σ M) (p q : P) (tag : T) (envelopes : List (Envelope (M tag))) :
    P → P → (tag : T) → List (Envelope (M tag)) :=
  Function.update s.chan p
    (Function.update (s.chan p) q (Function.update (s.chan p q) tag envelopes))

def afterSend (s : State P T σ M) (p dest : P) (tag : T) (msg : M tag) (sync : Bool) (next : σ) :
    State P T σ M :=
  { s with
    loc := Function.update s.loc p next
    pending := if sync then Function.update s.pending p (some (dest, tag)) else s.pending
    chan := s.setChan p dest tag (s.chan p dest tag ++ [⟨msg, sync⟩]) }

def afterRecv (s : State P T σ M) (p source : P) (tag : T) (awaited : Bool) (next : σ) :
    State P T σ M :=
  { s with
    loc := Function.update s.loc p next
    pending := if awaited then Function.update s.pending source none else s.pending
    chan := s.setChan source p tag (s.chan source p tag).tail }

def afterCompute (s : State P T σ M) (p : P) (next : σ) : State P T σ M :=
  { s with loc := Function.update s.loc p next }

end State

namespace System

/-- Is the process ready to take its next action? -/
def Ready (s : State P T σ M) (p : P) : Prop := s.pending p = none

instance (s : State P T σ M) (p : P) : Decidable (Ready s p) :=
  inferInstanceAs (Decidable (s.pending p = none))

/-- What a process becomes when a collective operation completes. -/
def passed (sys : System P T C σ M) (s : State P T σ M) (comm : C) (p : P) : Option σ :=
  match sys.action p (s.loc p) with
  | .collective comm' next => if comm' = comm then some next else none
  | _ => none

/-- All members of a collective operation have entered it. -/
def Entered (sys : System P T C σ M) (s : State P T σ M) (comm : C) : Prop :=
  ∀ p ∈ sys.members comm, Ready s p ∧ (sys.passed s comm p).isSome

instance (sys : System P T C σ M) (s : State P T σ M) (comm : C) :
    Decidable (sys.Entered s comm) :=
  inferInstanceAs (Decidable (∀ p ∈ sys.members comm, Ready s p ∧ (sys.passed s comm p).isSome))

def afterCollective (sys : System P T C σ M) (s : State P T σ M) (comm : C) : State P T σ M :=
  { s with
    loc := fun p =>
      if p ∈ sys.members comm then (sys.passed s comm p).getD (s.loc p) else s.loc p }

/-- The state after an event, if the event is possible. -/
def perform (sys : System P T C σ M) (e : Event P C) (s : State P T σ M) :
    Option (State P T σ M) :=
  if s.aborted then none
  else match e with
  | .send p sync =>
      match sys.action p (s.loc p) with
      | .send dest tag msg next =>
          if Ready s p then some (s.afterSend p dest tag msg sync next) else none
      | _ => none
  | .recv p source =>
      match sys.action p (s.loc p) with
      | .recv from_ tag next =>
          if Ready s p ∧ (from_ = none ∨ from_ = some source) then
            match s.chan source p tag with
            | [] => none
            | e :: _ => some (s.afterRecv p source tag e.awaited (next source e.msg))
          else none
      | _ => none
  | .collective comm => if sys.Entered s comm then some (sys.afterCollective s comm) else none
  | .compute p =>
      match sys.action p (s.loc p) with
      | .compute next => if Ready s p then some (s.afterCompute p next) else none
      | _ => none
  | .abort p =>
      match sys.action p (s.loc p) with
      | .abort => if Ready s p then some { s with aborted := true } else none
      | _ => none

/-- Perform a list of events. -/
def performAll (sys : System P T C σ M) : List (Event P C) → State P T σ M →
    Option (State P T σ M)
  | [], s => some s
  | e :: events, s => (sys.perform e s).bind (sys.performAll events)

/-- The states a run from `init` goes through. -/
inductive Reachable (sys : System P T C σ M) (init : State P T σ M) : State P T σ M → Prop
  | init : Reachable sys init init
  | step {s s' : State P T σ M} (e : Event P C) :
      Reachable sys init s → sys.perform e s = some s' → Reachable sys init s'

end System

/-! ### What a step can do -/

namespace State

omit [DecidableEq T] in
@[simp] theorem loc_afterCompute (s : State P T σ M) (p : P) (next : σ) :
    (s.afterCompute p next).loc = Function.update s.loc p next := rfl

omit [DecidableEq T] in
@[simp] theorem msgs_afterCompute (s : State P T σ M) (p : P) (next : σ) :
    (s.afterCompute p next).msgs = s.msgs := rfl

section Channels

variable (s : State P T σ M) (p q dest source p' q' : P) (tag : T) (next : σ)

@[simp] theorem loc_afterSend (msg : M tag) (sync : Bool) :
    (s.afterSend p dest tag msg sync next).loc = Function.update s.loc p next := rfl

@[simp] theorem loc_afterRecv (awaited : Bool) :
    (s.afterRecv p source tag awaited next).loc = Function.update s.loc p next := rfl

theorem setChan_self (envelopes : List (Envelope (M tag))) :
    s.setChan p q tag envelopes p' q' tag =
      if p' = p ∧ q' = q then envelopes else s.chan p' q' tag := by
  by_cases hp : p' = p
  · subst hp
    by_cases hq : q' = q
    · subst hq
      simp [setChan]
    · simp [setChan, hq]
  · simp [setChan, hp]

theorem setChan_of_ne {tag' : T} (h : ¬(p' = p ∧ tag' = tag))
    (envelopes : List (Envelope (M tag))) :
    s.setChan p q tag envelopes p' q' tag' = s.chan p' q' tag' := by
  by_cases hp : p' = p
  · subst hp
    have htag : tag' ≠ tag := fun heq => h ⟨rfl, heq⟩
    by_cases hq : q' = q
    · subst hq
      simp [setChan, htag]
    · simp [setChan, hq]
  · simp [setChan, hp]

/-- A send appends to its own channel. -/
@[simp] theorem msgs_afterSend (msg : M tag) (sync : Bool) :
    (s.afterSend p dest tag msg sync next).msgs p' q' tag =
      if p' = p ∧ q' = dest then s.msgs p dest tag ++ [msg] else s.msgs p' q' tag := by
  have hchan := s.setChan_self p dest p' q' tag (s.chan p dest tag ++ [⟨msg, sync⟩])
  change (s.setChan p dest tag _ p' q' tag).map Envelope.msg = _
  rw [hchan]
  split
  · rw [List.map_append, msgs]
    rfl
  · rfl

@[simp] theorem msgs_afterSend_of_ne {tag' : T} (h : tag' ≠ tag) (msg : M tag) (sync : Bool) :
    (s.afterSend p dest tag msg sync next).msgs p' q' tag' = s.msgs p' q' tag' :=
  congrArg (List.map Envelope.msg) (s.setChan_of_ne p dest p' q' tag (fun hc => h hc.2) _)

/-- A receive takes the oldest message of its channel. -/
@[simp] theorem msgs_afterRecv (awaited : Bool) :
    (s.afterRecv p source tag awaited next).msgs p' q' tag =
      if p' = source ∧ q' = p then (s.msgs source p tag).tail else s.msgs p' q' tag := by
  have hchan := s.setChan_self source p p' q' tag (s.chan source p tag).tail
  change (s.setChan source p tag _ p' q' tag).map Envelope.msg = _
  rw [hchan]
  split
  · rw [List.map_tail, msgs]
  · rfl

@[simp] theorem msgs_afterRecv_of_ne {tag' : T} (h : tag' ≠ tag) (awaited : Bool) :
    (s.afterRecv p source tag awaited next).msgs p' q' tag' = s.msgs p' q' tag' :=
  congrArg (List.map Envelope.msg) (s.setChan_of_ne source p p' q' tag (fun hc => h hc.2) _)

variable {s p dest source p' q' tag next}

/-- A send leaves the other channels. -/
theorem msgs_afterSend_frame {tag' : T} (h : p' = p → q' = dest → tag' ≠ tag) (msg : M tag)
    (sync : Bool) : (s.afterSend p dest tag msg sync next).msgs p' q' tag' = s.msgs p' q' tag' := by
  by_cases htag : tag' = tag
  · subst htag
    rw [msgs_afterSend, if_neg fun hc => h hc.1 hc.2 rfl]
  · exact msgs_afterSend_of_ne s p dest p' q' tag next htag msg sync

/-- A receive leaves the other channels. -/
theorem msgs_afterRecv_frame {tag' : T} (h : p' = source → q' = p → tag' ≠ tag) (awaited : Bool) :
    (s.afterRecv p source tag awaited next).msgs p' q' tag' = s.msgs p' q' tag' := by
  by_cases htag : tag' = tag
  · subst htag
    rw [msgs_afterRecv, if_neg fun hc => h hc.1 hc.2 rfl]
  · exact msgs_afterRecv_of_ne s p source p' q' tag next htag awaited

/-- What is in a channel after a send was there before or is the message sent. -/
theorem mem_msgs_afterSend {msg m : M tag} {sync : Bool}
    (h : m ∈ (s.afterSend p dest tag msg sync next).msgs p' q' tag) :
    m ∈ s.msgs p' q' tag ∨ q' = dest ∧ m = msg := by
  rw [msgs_afterSend] at h
  split at h
  · next heq =>
      obtain ⟨rfl, rfl⟩ := heq
      rcases List.mem_append.mp h with hold | hnew
      · exact Or.inl hold
      · exact Or.inr ⟨rfl, List.mem_singleton.mp hnew⟩
  · exact Or.inl h

end Channels

end State

namespace System

variable {sys : System P T C σ M} {s s' init : State P T σ M}

/-- What an event can do to a state. -/
inductive Move (sys : System P T C σ M) (s : State P T σ M) : State P T σ M → Prop
  | send {p dest : P} {tag : T} {msg : M tag} {next : σ} (sync : Bool) :
      Ready s p → sys.action p (s.loc p) = .send dest tag msg next →
      Move sys s (s.afterSend p dest tag msg sync next)
  | recv {p source : P} {from_ : Option P} {tag : T} {next : P → M tag → σ}
      {e : Envelope (M tag)} {rest : List (Envelope (M tag))} :
      Ready s p → sys.action p (s.loc p) = .recv from_ tag next →
      from_ = none ∨ from_ = some source → s.chan source p tag = e :: rest →
      Move sys s (s.afterRecv p source tag e.awaited (next source e.msg))
  | collective {comm : C} : sys.Entered s comm → Move sys s (sys.afterCollective s comm)
  | compute {p : P} {next : σ} : Ready s p → sys.action p (s.loc p) = .compute next →
      Move sys s (s.afterCompute p next)
  | abort {p : P} : Ready s p → sys.action p (s.loc p) = .abort →
      Move sys s { s with aborted := true }

theorem move_of_perform {e : Event P C} (h : sys.perform e s = some s') :
    s.aborted = false ∧ Move sys s s' := by
  unfold perform at h
  cases halive : s.aborted with
  | true => simp [halive] at h
  | false =>
      simp only [halive, Bool.false_eq_true, if_false] at h
      refine ⟨rfl, ?_⟩
      cases e with
      | send p sync =>
          cases hact : sys.action p (s.loc p) with
          | send dest tag msg next =>
              simp only [hact, Option.ite_none_right_eq_some, Option.some.injEq] at h
              obtain ⟨hready, rfl⟩ := h
              exact .send sync hready hact
          | _ => simp [hact] at h
      | recv p source =>
          cases hact : sys.action p (s.loc p) with
          | recv from_ tag next =>
              simp only [hact, Option.ite_none_right_eq_some] at h
              obtain ⟨⟨hready, hfrom⟩, h⟩ := h
              cases hchan : s.chan source p tag with
              | nil => simp [hchan] at h
              | cons e rest =>
                  simp only [hchan, Option.some.injEq] at h
                  subst h
                  exact .recv hready hact hfrom hchan
          | _ => simp [hact] at h
      | collective comm =>
          simp only [Option.ite_none_right_eq_some, Option.some.injEq] at h
          obtain ⟨hentered, rfl⟩ := h
          exact .collective hentered
      | compute p =>
          cases hact : sys.action p (s.loc p) with
          | compute next =>
              simp only [hact, Option.ite_none_right_eq_some, Option.some.injEq] at h
              obtain ⟨hready, rfl⟩ := h
              exact .compute hready hact
          | _ => simp [hact] at h
      | abort p =>
          cases hact : sys.action p (s.loc p) with
          | abort =>
              simp only [hact, Option.ite_none_right_eq_some, Option.some.injEq] at h
              obtain ⟨hready, rfl⟩ := h
              exact .abort hready hact
          | _ => simp [hact] at h

/-! ### Reachable states -/

/-- What holds initially and is kept by every move from a reachable state holds
in every reachable state. -/
theorem Reachable.invariant {I : State P T σ M → Prop} (hinit : I init)
    (hmove : ∀ s s', sys.Reachable init s → I s → s.aborted = false → Move sys s s' → I s')
    (h : sys.Reachable init s) : I s := by
  induction h with
  | init => exact hinit
  | step e hreach hperform ih =>
      obtain ⟨halive, hmove'⟩ := move_of_perform hperform
      exact hmove _ _ hreach ih halive hmove'

theorem reachable_of_performAll {events : List (Event P C)} (h : sys.Reachable init s)
    (hperform : sys.performAll events s = some s') : sys.Reachable init s' := by
  induction events generalizing s with
  | nil =>
      obtain rfl := Option.some.inj hperform
      exact h
  | cons e events ih =>
      obtain ⟨s₁, hstep, hrest⟩ := Option.bind_eq_some_iff.mp hperform
      exact ih (h.step e hstep) hrest

/-- A process that is blocked in a send has its message as the last one of the
channel. -/
def BlockedInSend (s : State P T σ M) : Prop :=
  ∀ p dest tag, s.pending p = some (dest, tag) →
    ∃ (older : List (Envelope (M tag))) (msg : M tag),
      s.chan p dest tag = older ++ [⟨msg, true⟩]

theorem Move.blockedInSend (h : Move sys s s') (hblocked : BlockedInSend s) :
    BlockedInSend s' := by
  intro p' dest' tag' hpending
  cases h with
  | @send p dest tag msg next sync hready hact =>
      change ∃ (older : List (Envelope (M tag'))) (msg : M tag'),
        s.setChan p dest tag _ p' dest' tag' = older ++ [⟨msg, true⟩]
      by_cases hp : p' = p
      · subst hp
        -- the process was not blocked, so this send is the one it is blocked in
        cases sync with
        | false => exact absurd (hready.symm.trans hpending) (by simp)
        | true =>
            have hdest : some (dest, tag) = some (dest', tag') := by
              simpa [State.afterSend] using hpending
            cases hdest
            rw [State.setChan_self, if_pos ⟨rfl, rfl⟩]
            exact ⟨_, msg, rfl⟩
      · have hold : s.pending p' = some (dest', tag') := by
          cases sync <;> simpa [State.afterSend, hp] using hpending
        rw [State.setChan_of_ne _ _ _ _ _ _ fun hc => hp hc.1]
        exact hblocked p' dest' tag' hold
  | @recv p source from_ tag next e rest hready hact hfrom hchan =>
      change ∃ (older : List (Envelope (M tag'))) (msg : M tag'),
        s.setChan source p tag _ p' dest' tag' = older ++ [⟨msg, true⟩]
      have hold : s.pending p' = some (dest', tag') ∧ (p' = source → e.awaited = false) := by
        cases hawaited : e.awaited with
        | false => exact ⟨by simpa [State.afterRecv, hawaited] using hpending, fun _ => rfl⟩
        | true =>
            by_cases hp : p' = source
            · simp [State.afterRecv, hawaited, hp] at hpending
            · exact ⟨by simpa [State.afterRecv, hawaited, hp] using hpending,
                fun heq => absurd heq hp⟩
      obtain ⟨hold, hnot⟩ := hold
      obtain ⟨older, msg, holder⟩ := hblocked p' dest' tag' hold
      by_cases hsame : p' = source ∧ tag' = tag
      · obtain ⟨rfl, rfl⟩ := hsame
        rw [State.setChan_self]
        split
        · rename_i hdest
          rw [hdest.2] at holder
          rw [holder] at hchan ⊢
          -- the message received is not the one the sender is blocked in
          cases older with
          | nil =>
              obtain ⟨rfl, -⟩ := List.cons.inj hchan
              cases hnot rfl
          | cons x older => exact ⟨older, msg, rfl⟩
        · exact ⟨older, msg, holder⟩
      · rw [State.setChan_of_ne _ _ _ _ _ _ hsame]
        exact ⟨older, msg, holder⟩
  | collective _ => exact hblocked p' dest' tag' hpending
  | compute _ _ => exact hblocked p' dest' tag' hpending
  | abort _ _ => exact hblocked p' dest' tag' hpending

omit [DecidableEq P] [DecidableEq T] in
theorem BlockedInSend.msgs_ne_nil (hblocked : BlockedInSend s) {p dest : P} {tag : T}
    (h : s.pending p = some (dest, tag)) : s.msgs p dest tag ≠ [] := by
  obtain ⟨older, msg, hchan⟩ := hblocked p dest tag h
  simp [State.msgs, hchan]

/-! ### Events that are possible -/

theorem perform_send (halive : s.aborted = false) {p dest : P} {tag : T} {msg : M tag} {next : σ}
    (hready : Ready s p) (hact : sys.action p (s.loc p) = .send dest tag msg next)
    (sync : Bool) :
    sys.perform (.send p sync) s = some (s.afterSend p dest tag msg sync next) := by
  simp [perform, halive, hact, hready]

theorem perform_recv (halive : s.aborted = false) {p source : P} {from_ : Option P} {tag : T}
    {next : P → M tag → σ} (hready : Ready s p)
    (hact : sys.action p (s.loc p) = .recv from_ tag next)
    (hfrom : from_ = none ∨ from_ = some source) (hmsgs : s.msgs source p tag ≠ []) :
    ∃ s', sys.perform (.recv p source) s = some s' := by
  cases hchan : s.chan source p tag with
  | nil => simp [State.msgs, hchan] at hmsgs
  | cons e rest =>
      refine ⟨s.afterRecv p source tag e.awaited (next source e.msg), ?_⟩
      simp [perform, halive, hact, hready, hfrom, hchan]

theorem perform_collective (halive : s.aborted = false) {comm : C} (h : sys.Entered s comm) :
    sys.perform (.collective comm) s = some (sys.afterCollective s comm) := by
  simp [perform, halive, h]

theorem perform_compute (halive : s.aborted = false) {p : P} {next : σ} (hready : Ready s p)
    (hact : sys.action p (s.loc p) = .compute next) :
    sys.perform (.compute p) s = some (s.afterCompute p next) := by
  simp [perform, halive, hact, hready]

theorem perform_abort (halive : s.aborted = false) {p : P} (hready : Ready s p)
    (hact : sys.action p (s.loc p) = .abort) :
    sys.perform (.abort p) s = some { s with aborted := true } := by
  simp [perform, halive, hact, hready]

end System

end Grvy.Lib.MessagePassing
