import Mathlib.Data.List.Basic
import Mathlib.Order.Defs.Unbundled

/-!
Loops over entries that have keys.

A loop whose body changes what is kept under the key of its entry, and nothing else,
does to each key what the loop over the entries of this key alone would do. The best
entry so far is an example of what may be kept.
-/

namespace Grvy.Lib

section Keyed

variable {σ α κ β : Type*} [DecidableEq κ] {step : σ → α → σ} {act : β → α → β}

/-- What is kept under a key depends on the entries of the key only, in their order. -/
theorem foldl_keyed (read : σ → κ → β) (key : α → κ)
    (hself : ∀ s x, read (step s x) (key x) = act (read s (key x)) x)
    (hother : ∀ s x k, k ≠ key x → read (step s x) k = read s k) (xs : List α) (s : σ) (k : κ) :
    read (xs.foldl step s) k = (xs.filter fun x => key x = k).foldl act (read s k) := by
  induction xs generalizing s with
  | nil => rfl
  | cons x xs ih =>
      rw [List.foldl_cons, ih]
      by_cases hk : key x = k
      · rw [List.filter_cons_of_pos (by simpa using hk), List.foldl_cons, ← hk, hself]
      · rw [List.filter_cons_of_neg (by simpa using hk), hother s x k (Ne.symm hk)]

/-- A key that every entry overwrites has the value of the last one. -/
theorem foldl_overwrite (f : α → β) (xs : List α) (b : β) :
    xs.foldl (fun _ x => f x) b = (xs.getLast?.map f).getD b := by
  induction xs generalizing b with
  | nil => rfl
  | cons x xs ih =>
      rw [List.foldl_cons, ih, List.getLast?_cons]
      cases xs.getLast? <;> rfl

end Keyed

section Best

variable {α : Type*} (better : α → α → Prop) [DecidableRel better]

/-- Keep the better one of two entries, and the old one if none is better. -/
def improve (best x : α) : α := if better x best then x else best

theorem foldl_improve_mem (xs : List α) (start : α) :
    xs.foldl (improve better) start = start ∨ xs.foldl (improve better) start ∈ xs := by
  induction xs generalizing start with
  | nil => exact Or.inl rfl
  | cons x xs ih =>
      rw [List.foldl_cons, List.mem_cons]
      rcases ih (improve better start x) with hsame | hmem
      · rw [hsame, improve]
        split
        · exact Or.inr (Or.inl rfl)
        · exact Or.inl rfl
      · exact Or.inr (Or.inr hmem)

variable {better} {xs : List α} {start : α}

/-- What is not better than the start is not better than the result. -/
theorem not_better_foldl_improve [IsTrans α better] {y : α} (hy : ¬better y start) :
    ¬better y (xs.foldl (improve better) start) := by
  induction xs generalizing start with
  | nil => exact hy
  | cons x xs ih =>
      apply ih
      rw [improve]
      split
      · rename_i hbetter
        exact fun hyx => hy (trans_of better hyx hbetter)
      · exact hy

theorem not_better_of_mem [IsTrans α better] [Std.Irrefl better] {x : α} (hx : x ∈ xs) :
    ¬better x (xs.foldl (improve better) start) := by
  induction xs generalizing start with
  | nil => cases hx
  | cons y xs ih =>
      rw [List.foldl_cons]
      rcases List.mem_cons.mp hx with rfl | hx
      · apply not_better_foldl_improve
        rw [improve]
        split
        · exact irrefl_of better x
        · assumption
      · exact ih hx

/-- If every entry is better than the start, the result is one of the entries, and none
is better. -/
theorem foldl_improve_best [IsTrans α better] [Std.Irrefl better] (hne : xs ≠ [])
    (hstart : ∀ x ∈ xs, better x start) :
    xs.foldl (improve better) start ∈ xs ∧
      ∀ x ∈ xs, ¬better x (xs.foldl (improve better) start) := by
  refine ⟨?_, fun x hx => not_better_of_mem hx⟩
  rcases foldl_improve_mem better xs start with hsame | hmem
  · obtain ⟨x, hx⟩ := List.exists_mem_of_ne_nil xs hne
    have hbest : ¬better x (xs.foldl (improve better) start) := not_better_of_mem hx
    rw [hsame] at hbest
    exact absurd (hstart x hx) hbest
  · exact hmem

end Best

end Grvy.Lib
