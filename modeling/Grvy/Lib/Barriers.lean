import Mathlib.Logic.Function.Basic
import Mathlib.Data.List.Basic
import Mathlib.Logic.Relation

/-!
Processes that take turns on a shared state between barriers.

Each process has a list of actions to perform before each barrier, and may
perform them at any time until the others have arrived. An action may fail,
which ends the whole system. Where only one process acts between two barriers,
the order in which the processes run does not matter: every run ends, and it
ends as the actions would if they were performed one turn after another.
-/

namespace Grvy.Lib.Barriers

open Relation

variable {ε σ : Type}

abbrev Action (ε σ : Type) := σ → Except ε σ

/-- Perform a list of actions, up to the first failure. -/
def runActions : List (Action ε σ) → σ → Except ε σ
  | [], shared => .ok shared
  | a :: rest, shared => do runActions rest (← a shared)

/-- The processes `0, …, procs - 1` pass `barriers` barriers; before the barrier
with number `k`, and after the last one, process `p` performs `turn k p`. -/
structure Schedule (ε σ : Type) where
  procs : ℕ
  barriers : ℕ
  turn : ℕ → ℕ → List (Action ε σ)

structure State (ε σ : Type) where
  shared : σ
  /-- How many barriers have been passed. -/
  round : ℕ
  /-- What each process still has to do before it arrives at the next one. -/
  todo : ℕ → List (Action ε σ)
  failed : Option ε

namespace Schedule

variable (sch : Schedule ε σ)

def init (shared : σ) : State ε σ where
  shared := shared
  round := 0
  todo := sch.turn 0
  failed := none

inductive Step : State ε σ → State ε σ → Prop
  | act {s : State ε σ} {p : ℕ} {a : Action ε σ} {rest : List (Action ε σ)} {shared : σ} :
      s.failed = none → p < sch.procs → s.todo p = a :: rest → a s.shared = .ok shared →
      Step s { s with shared := shared, todo := Function.update s.todo p rest }
  | fail {s : State ε σ} {p : ℕ} {a : Action ε σ} {rest : List (Action ε σ)} {e : ε} :
      s.failed = none → p < sch.procs → s.todo p = a :: rest → a s.shared = .error e →
      Step s { s with failed := some e }
  | barrier {s : State ε σ} :
      s.failed = none → (∀ p < sch.procs, s.todo p = []) → s.round < sch.barriers →
      Step s { s with round := s.round + 1, todo := sch.turn (s.round + 1) }

def Reachable (shared : σ) : State ε σ → Prop := ReflTransGen sch.Step (sch.init shared)

/-- Nothing is left to do. -/
def Final (s : State ε σ) : Prop := ∀ s', ¬sch.Step s s'

/-- Every run from `shared` ends, without a failure and in a state that
satisfies `Q`. -/
structure EveryRun (shared : σ) (Q : σ → Prop) : Prop where
  ends : ∀ run : ℕ → State ε σ, run 0 = sch.init shared → ¬∀ k, sch.Step (run k) (run (k + 1))
  succeeds : ∀ s, sch.Reachable shared s → sch.Final s → s.failed = none ∧ Q s.shared

/-- The actions of all processes before barrier `k`, one process after another. -/
def sequence (k : ℕ) : List (Action ε σ) := (List.range sch.procs).flatMap (sch.turn k)

/-- All actions, one turn after another. -/
def sequential : List (Action ε σ) := (List.range (sch.barriers + 1)).flatMap sch.sequence

/-- At most one process has something to do. -/
def Alone (todo : ℕ → List (Action ε σ)) : Prop :=
  ∀ p q, todo p ≠ [] → todo q ≠ [] → p = q

/-- At most one process acts between two barriers. -/
def TakesTurns : Prop := ∀ k, Alone (sch.turn k)

end Schedule

/-! ### Lists of actions -/

@[simp] theorem runActions_nil (shared : σ) : runActions ([] : List (Action ε σ)) shared =
    .ok shared := rfl

theorem runActions_append (as bs : List (Action ε σ)) (shared : σ) :
    runActions (as ++ bs) shared = runActions as shared >>= runActions bs := by
  induction as generalizing shared with
  | nil => rfl
  | cons a as ih =>
      change (a shared >>= fun shared' => runActions (as ++ bs) shared') = _
      rw [funext ih]
      cases h : a shared with
      | error e => simp [runActions, h, bind, Except.bind]
      | ok shared' => simp [runActions, h, bind, Except.bind]

namespace Schedule

variable {sch : Schedule ε σ} {s s' : State ε σ} {shared : σ}

theorem Alone.eq_nil {todo : ℕ → List (Action ε σ)} (h : Alone todo) {p q : ℕ}
    (hne : todo p ≠ []) (hq : q ≠ p) : todo q = [] := by
  by_contra hact
  exact hq (h q p hact hne)

theorem flatMap_eq_nil {todo : ℕ → List (Action ε σ)} {n : ℕ} (h : ∀ p < n, todo p = []) :
    (List.range n).flatMap todo = [] :=
  List.flatMap_eq_nil_iff.mpr fun p hp => h p (List.mem_range.mp hp)

/-- The process that acts is the only one whose actions count. -/
theorem Alone.flatMap_eq {todo : ℕ → List (Action ε σ)} (h : Alone todo) {p n : ℕ} (hp : p < n)
    (hne : todo p ≠ []) : (List.range n).flatMap todo = todo p := by
  induction n with
  | zero => exact absurd hp (Nat.not_lt_zero p)
  | succ n ih =>
      rw [List.range_succ, List.flatMap_append, List.flatMap_singleton]
      rcases Nat.lt_succ_iff_lt_or_eq.mp hp with hlt | rfl
      · rw [ih hlt, h.eq_nil hne (Nat.ne_of_gt hlt), List.append_nil]
      · rw [flatMap_eq_nil fun q hq => h.eq_nil hne (Nat.ne_of_lt hq), List.nil_append]

theorem Alone.update {todo : ℕ → List (Action ε σ)} (h : Alone todo) {p : ℕ} (hne : todo p ≠ [])
    (rest : List (Action ε σ)) : Alone (Function.update todo p rest) := by
  have hother : ∀ q, Function.update todo p rest q ≠ [] → q = p := by
    intro q hq
    by_contra hqp
    rw [Function.update_of_ne hqp] at hq
    exact hq (h.eq_nil hne hqp)
  intro q q' hq hq'
  rw [hother q hq, hother q' hq']

/-! ### What is still to be done -/

variable (sch) in
/-- The actions left, one turn after another. -/
def remaining (s : State ε σ) : List (Action ε σ) :=
  (List.range sch.procs).flatMap s.todo ++
    (List.range' (s.round + 1) (sch.barriers - s.round)).flatMap sch.sequence

variable (sch) in
/-- What the system will end with. -/
def outcome (s : State ε σ) : Except ε σ :=
  match s.failed with
  | some e => .error e
  | none => runActions (sch.remaining s) s.shared

variable (sch) in
/-- What every step decreases. -/
def measure (s : State ε σ) : ℕ :=
  (sch.remaining s).length + (sch.barriers - s.round) + if s.failed.isNone then 1 else 0

theorem outcome_of_none (h : s.failed = none) :
    sch.outcome s = runActions (sch.remaining s) s.shared := by
  rw [outcome, h]

@[simp] theorem remaining_init (shared : σ) : sch.remaining (sch.init shared) = sch.sequential := by
  rw [sequential, List.range_eq_range', List.range'_succ, List.flatMap_cons]
  rfl

theorem remaining_act (halone : Alone s.todo) {p : ℕ} {a : Action ε σ}
    {rest : List (Action ε σ)} (hp : p < sch.procs) (htodo : s.todo p = a :: rest) (shared : σ) :
    sch.remaining s =
      a :: sch.remaining { s with shared := shared, todo := Function.update s.todo p rest } := by
  have hne : s.todo p ≠ [] := by
    rw [htodo]
    exact List.cons_ne_nil a rest
  have hrest : (List.range sch.procs).flatMap (Function.update s.todo p rest) = rest := by
    by_cases hnil : rest = []
    · subst hnil
      refine flatMap_eq_nil fun q _ => ?_
      by_cases hq : q = p
      · rw [hq, Function.update_self]
      · rw [Function.update_of_ne hq, halone.eq_nil hne hq]
    · have hself : Function.update s.todo p rest p = rest := Function.update_self ..
      rw [(halone.update hne rest).flatMap_eq hp (by rwa [hself]), hself]
  rw [remaining, halone.flatMap_eq hp hne, htodo, remaining, hrest]
  rfl

theorem remaining_barrier (hdone : ∀ p < sch.procs, s.todo p = [])
    (hround : s.round < sch.barriers) :
    sch.remaining s =
      sch.remaining { s with round := s.round + 1, todo := sch.turn (s.round + 1) } := by
  obtain ⟨m, hm⟩ : ∃ m, sch.barriers - s.round = m + 1 := ⟨sch.barriers - s.round - 1, by omega⟩
  have hm' : sch.barriers - (s.round + 1) = m := by omega
  rw [remaining, flatMap_eq_nil hdone, hm, List.range'_succ, List.flatMap_cons, List.nil_append,
    remaining, hm']
  rfl

/-! ### One step -/

/-- A step leaves at most one process with something to do, and does not change
what the system will end with. -/
theorem Step.spec (hturns : sch.TakesTurns) (halone : Alone s.todo) (h : sch.Step s s') :
    Alone s'.todo ∧ sch.outcome s' = sch.outcome s ∧ sch.measure s' < sch.measure s := by
  cases h with
  | @act p a rest shared hnone hp htodo ha =>
      have hne : s.todo p ≠ [] := by
        rw [htodo]
        exact List.cons_ne_nil a rest
      have hrem := remaining_act halone hp htodo shared
      refine ⟨halone.update hne rest, ?_, ?_⟩
      · rw [outcome_of_none hnone, outcome_of_none (by exact hnone), hrem, runActions, ha]
        rfl
      · simp only [measure, hrem, List.length_cons]
        omega
  | @fail p a rest e hnone hp htodo ha =>
      refine ⟨halone, ?_, ?_⟩
      · rw [outcome_of_none hnone, remaining_act halone hp htodo s.shared, runActions, ha]
        rfl
      · have hrem : sch.remaining { s with failed := some e } = sch.remaining s := rfl
        simp only [measure, hrem, hnone]
        simp
  | barrier hnone hdone hround =>
      have hrem := remaining_barrier hdone hround
      refine ⟨hturns (s.round + 1), ?_, ?_⟩
      · rw [outcome_of_none hnone, outcome_of_none (by exact hnone), hrem]
      · simp only [measure, hrem]
        omega

theorem Reachable.spec (hturns : sch.TakesTurns) (h : sch.Reachable shared s) :
    Alone s.todo ∧ sch.outcome s = runActions sch.sequential shared := by
  induction h with
  | refl =>
      refine ⟨hturns 0, ?_⟩
      rw [← remaining_init shared]
      rfl
  | tail _ hstep ih =>
      obtain ⟨halone, houtcome, -⟩ := hstep.spec hturns ih.1
      exact ⟨halone, houtcome.trans ih.2⟩

/-! ### Whole runs -/

/-- A system that has not failed can go on until all barriers are passed and
nothing is left to do. -/
theorem Final.outcome_eq (h : sch.Final s) : s.failed ≠ none ∨ sch.outcome s = .ok s.shared := by
  by_cases hnone : s.failed = none
  · right
    have hdone : ∀ p < sch.procs, s.todo p = [] := by
      intro p hp
      cases htodo : s.todo p with
      | nil => rfl
      | cons a rest =>
          cases ha : a s.shared with
          | error e => exact absurd (.fail hnone hp htodo ha) (h _)
          | ok shared => exact absurd (.act hnone hp htodo ha) (h _)
    have hround : sch.barriers - s.round = 0 := by
      by_contra hlt
      exact h _ (.barrier hnone hdone (by omega))
    rw [outcome_of_none hnone, remaining, flatMap_eq_nil hdone, hround]
    rfl
  · exact Or.inl hnone

theorem exists_final (hturns : sch.TakesTurns) (h : sch.Reachable shared s) :
    ∃ s', sch.Reachable shared s' ∧ sch.Final s' := by
  induction hn : sch.measure s using Nat.strongRecOn generalizing s with
  | _ n ih =>
      by_cases hfinal : sch.Final s
      · exact ⟨s, h, hfinal⟩
      · obtain ⟨s₁, hstep⟩ := not_forall_not.mp hfinal
        have hlt := (hstep.spec hturns (h.spec hturns).1).2.2
        exact ih _ (hn ▸ hlt) (h.tail hstep) rfl

theorem not_infinite (hturns : sch.TakesTurns) (run : ℕ → State ε σ)
    (hinit : run 0 = sch.init shared) : ¬∀ k, sch.Step (run k) (run (k + 1)) := by
  intro hsteps
  have hreach : ∀ k, sch.Reachable shared (run k) := by
    intro k
    induction k with
    | zero => exact hinit ▸ ReflTransGen.refl
    | succ k ih => exact ih.tail (hsteps k)
  have hbound : ∀ k, sch.measure (run k) + k ≤ sch.measure (run 0) := by
    intro k
    induction k with
    | zero => exact Nat.le_refl _
    | succ k ih =>
        have hlt := ((hsteps k).spec hturns ((hreach k).spec hturns).1).2.2
        omega
  have hlast := hbound (sch.measure (run 0) + 1)
  omega

/-- Every run of a system whose processes take turns ends as the actions do one
turn after another. -/
theorem everyRun_iff (hturns : sch.TakesTurns) (shared : σ) (Q : σ → Prop) :
    sch.EveryRun shared Q ↔ ∃ result, runActions sch.sequential shared = .ok result ∧ Q result := by
  constructor
  · intro h
    obtain ⟨s, hreach, hfinal⟩ := exists_final hturns (s := sch.init shared) ReflTransGen.refl
    obtain ⟨hnone, hQ⟩ := h.succeeds s hreach hfinal
    have houtcome := hfinal.outcome_eq.resolve_left fun hne => hne hnone
    rw [(hreach.spec hturns).2] at houtcome
    exact ⟨s.shared, houtcome, hQ⟩
  · rintro ⟨result, hresult, hQ⟩
    refine ⟨not_infinite hturns, fun s hreach hfinal => ?_⟩
    have hspec := (hreach.spec hturns).2.trans hresult
    have hnone : s.failed = none := by
      cases hfailed : s.failed with
      | none => rfl
      | some e =>
          rw [outcome, hfailed] at hspec
          cases hspec
    have houtcome := hfinal.outcome_eq.resolve_left fun hne => hne hnone
    obtain rfl : s.shared = result := Except.ok.inj (houtcome.symm.trans hspec)
    exact ⟨hnone, hQ⟩

end Schedule

end Grvy.Lib.Barriers
