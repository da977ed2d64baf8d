import Mathlib.Data.List.Sort

/-!
The contract of a binary priority queue, for programs that fill a queue and
then only pop.

The queue is given by the order in which it hands out the elements that were
pushed. The contract says that this order is a rearrangement of what was
pushed and that no element comes out after one it should have preceded; which
of two tied elements comes first is left open. A program verified for every
such structure is verified for every tie-breaking rule.
-/

namespace Grvy.Lib

/-- A max-priority queue over `α`, where `lower a b` says that `a` has strictly
lower priority than `b`. `drain l` is the order in which the elements of `l`
are popped once all of them have been pushed. -/
structure PriorityQueue (α : Type) (lower : α → α → Bool) where
  drain : List α → List α
  /-- Nothing is lost, duplicated or made up. -/
  drain_perm : ∀ l, (drain l).Perm l
  /-- No element is popped before one of higher priority. -/
  drain_sorted : ∀ l, (drain l).Pairwise fun a b => lower a b = false

namespace PriorityQueue

variable {α : Type} {lower : α → α → Bool}

@[simp] theorem mem_drain (q : PriorityQueue α lower) {l : List α} {a : α} :
    a ∈ q.drain l ↔ a ∈ l :=
  (q.drain_perm l).mem_iff

@[simp] theorem length_drain (q : PriorityQueue α lower) (l : List α) :
    (q.drain l).length = l.length :=
  (q.drain_perm l).length_eq

/-- The queue that keeps tied elements in the order they were pushed, for a
priority given by a rank in which smaller comes first. -/
def ofRank (rank : α → ℕ) : PriorityQueue α fun a b => decide (rank b < rank a) where
  drain := List.insertionSort fun a b => rank a ≤ rank b
  drain_perm := List.perm_insertionSort _
  drain_sorted l := by
    have : IsTrans α fun a b => rank a ≤ rank b := ⟨fun _ _ _ => le_trans⟩
    have : Std.Total fun a b : α => rank a ≤ rank b := ⟨fun a b => le_total (rank a) (rank b)⟩
    refine (List.pairwise_insertionSort (fun a b => rank a ≤ rank b) l).imp ?_
    intro a b hab
    exact decide_eq_false (not_lt.mpr hab)

end PriorityQueue

end Grvy.Lib
