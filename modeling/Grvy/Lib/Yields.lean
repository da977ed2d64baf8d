import Mathlib.Logic.Basic

/-!
Runs with a state that do not fail and whose result is known.

`Yields P m a Q` says that `m`, started in any state with `P`, gives `a` in a state with
`Q`. What the state is remains open, so that a run can be compared with a function that has
no state at all.
-/

namespace Grvy.Lib

/-- Started in any state with `P`, the computation gives `a` in a state with `Q`. -/
def Yields {σ α : Type} (P : σ → Prop) (m : StateT σ Option α) (a : α) (Q : σ → Prop) : Prop :=
  ∀ s, P s → ∃ s', m s = some (a, s') ∧ Q s'

section Rules

variable {σ α β : Type} {P Q R : σ → Prop} {m : StateT σ Option α} {f : α → StateT σ Option β}
  {a : α} {b : β}

theorem yields_pure (P : σ → Prop) (a : α) : Yields P (pure a) a P := fun s h => ⟨s, rfl, h⟩

theorem Yields.bind (hm : Yields P m a Q) (hf : Yields Q (f a) b R) : Yields P (m >>= f) b R := by
  intro s hs
  obtain ⟨s', hrun, hs'⟩ := hm s hs
  obtain ⟨s'', hrest, hs''⟩ := hf s' hs'
  refine ⟨s'', ?_, hs''⟩
  show (m s).bind (fun p => f p.1 p.2) = some (b, s'')
  rw [hrun]
  exact hrest

theorem Yields.mono (h : Yields P m a Q) (hQ : ∀ s, Q s → R s) : Yields P m a R := by
  intro s hs
  obtain ⟨s', hrun, hs'⟩ := h s hs
  exact ⟨s', hrun, hQ s' hs'⟩

end Rules

end Grvy.Lib
