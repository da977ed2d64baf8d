import Mathlib.Data.Nat.Notation
import Mathlib.Logic.Basic

/-!
Dealing in turn.

A dealer gives items to `k` places, one after the other, and starts again at
the first place after the last. Before place `next` every place has had its
item of the current round, from there on none has; so no place is ever ahead of
another by more than one item.
-/

namespace Grvy.Lib

/-- `counts` is what the places hold when `next` is the place whose turn it is. -/
def InTurn (k next : ℕ) (counts : ℕ → ℕ) : Prop :=
  ∃ rounds, ∀ i < k, counts i = if i < next then rounds + 1 else rounds

/-- The place whose turn comes after `next`. -/
def nextInTurn (k next : ℕ) : ℕ := if next + 1 = k then 0 else next + 1

namespace InTurn

variable {k next : ℕ} {counts : ℕ → ℕ}

theorem zero (k : ℕ) : InTurn k 0 fun _ => 0 := by
  refine ⟨0, fun i _ => ?_⟩
  rw [if_neg (Nat.not_lt_zero i)]

/-- An item to the place whose turn it is, and the turn passes on. -/
theorem deal (h : InTurn k next counts) {counts' : ℕ → ℕ}
    (hself : counts' next = counts next + 1) (hother : ∀ i, i ≠ next → counts' i = counts i) :
    InTurn k (nextInTurn k next) counts' := by
  obtain ⟨rounds, hrounds⟩ := h
  have hcounts : ∀ i < k, counts' i = if i < next + 1 then rounds + 1 else rounds := by
    intro i hi
    rcases eq_or_ne i next with rfl | hne
    · rw [hself, hrounds i hi, if_neg (Nat.lt_irrefl i), if_pos (Nat.lt_succ_self i)]
    · rw [hother i hne, hrounds i hi]
      have hiff : i < next + 1 ↔ i < next := by omega
      simp only [hiff]
  unfold nextInTurn
  split
  · rename_i hlast
    refine ⟨rounds + 1, fun i hi => ?_⟩
    rw [hcounts i hi, if_pos (by omega), if_neg (Nat.not_lt_zero i)]
  · exact ⟨rounds, hcounts⟩

/-- No place is ahead of another by more than one. -/
theorem le_add_one (h : InTurn k next counts) {i j : ℕ} (hi : i < k) (hj : j < k) :
    counts i ≤ counts j + 1 := by
  obtain ⟨rounds, hrounds⟩ := h
  rw [hrounds i hi, hrounds j hj]
  split <;> split <;> omega

end InTurn

end Grvy.Lib
