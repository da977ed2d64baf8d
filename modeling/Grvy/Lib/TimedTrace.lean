import Mathlib.Algebra.BigOperators.Group.Finset.Basic
import Mathlib.Algebra.Order.Group.Defs
import Mathlib.Algebra.Order.Monoid.Defs
import Mathlib.Algebra.Group.Basic

/-!
Time spent in the states of a timed trace.

A trace is a list of events with the times at which they happen, read from a
state that is entered at some earlier time. `timeIn p` adds up the lengths of
the intervals between two events in which the state satisfies `p`. It is
additive in exclusive predicates, and for a clock that does not run backwards
it lies between zero and the length of the whole trace.
-/

namespace Grvy.Lib.TimedTrace

variable {σ ε T ι : Type*}

/-- The states in which the events of a trace find the system. -/
def visited (step : σ → ε → σ) : σ → List (T × ε) → List σ
  | _, [] => []
  | s, (_, e) :: trace => s :: visited step (step s e) trace

/-- The time of the last event of a trace. -/
def endTime (t : T) : List (T × ε) → T
  | [] => t
  | (t', _) :: trace => endTime t' trace

/-- The clock does not run backwards. -/
def Chronological [LE T] (t : T) : List (T × ε) → Prop
  | [] => True
  | (t', _) :: trace => t ≤ t' ∧ Chronological t' trace

theorem Chronological.initial [LE T] {t : T} {trace before : List (T × ε)}
    (h : Chronological t trace) (hpre : before <+: trace) : Chronological t before := by
  obtain ⟨after, rfl⟩ := hpre
  induction before generalizing t with
  | nil => trivial
  | cons event before ih => exact ⟨h.1, ih h.2⟩

section Group

variable [AddCommGroup T]

/-- The time a trace spends in states that satisfy `p`. -/
def timeIn (step : σ → ε → σ) (p : σ → Prop) [DecidablePred p] : σ → T → List (T × ε) → T
  | _, _, [] => 0
  | s, t, (t', e) :: trace => (if p s then t' - t else 0) + timeIn step p (step s e) t' trace

variable {step : σ → ε → σ} {p q : σ → Prop} [DecidablePred p] [DecidablePred q]

/-- A predicate that a family of predicates splits into exclusive parts takes
the times of the parts together. -/
theorem sum_timeIn {I : Finset ι} {part : ι → σ → Prop} [∀ i, DecidablePred (part i)] {s : σ}
    {t : T} {trace : List (T × ε)}
    (h : ∀ s' ∈ visited step s trace, ∀ x : T,
      ∑ i ∈ I, (if part i s' then x else 0) = if p s' then x else 0) :
    ∑ i ∈ I, timeIn step (part i) s t trace = timeIn step p s t trace := by
  induction trace generalizing s t with
  | nil => simp [timeIn]
  | cons event trace ih =>
      simp only [timeIn]
      rw [Finset.sum_add_distrib, h s List.mem_cons_self,
        ih fun s' hs' => h s' (List.mem_cons_of_mem _ hs')]

variable [LinearOrder T] [IsOrderedAddMonoid T]

theorem timeIn_le {s : σ} {t : T} {trace : List (T × ε)} (h : Chronological t trace) :
    timeIn step p s t trace ≤ endTime t trace - t := by
  induction trace generalizing s t with
  | nil => simp [timeIn, endTime]
  | cons event trace ih =>
      obtain ⟨t', e⟩ := event
      obtain ⟨hle, htail⟩ := h
      have hhead : (if p s then t' - t else 0) ≤ t' - t := by
        split
        · exact le_refl _
        · exact sub_nonneg.mpr hle
      calc timeIn step p s t ((t', e) :: trace)
          ≤ (t' - t) + (endTime t' trace - t') := add_le_add hhead (ih htail)
        _ = endTime t' trace - t := by rw [add_comm, sub_add_sub_cancel]

end Group

end Grvy.Lib.TimedTrace
