import Mathlib.Order.Filter.AtTopBot.Basic

/-!
Computations that are given fuel, and loops.

A computation has a value if it has this value from some amount of fuel on. The values of
two computations in sequence are those of the parts. A loop has a value when it is left;
a set of states that is never left before the loop is, shows that it is not.
-/

namespace Grvy.Lib

variable {σ α β : Type}

/-! ### Values -/

/-- The computation has the value `a` with enough fuel. -/
def Settles (f : ℕ → Option α) (a : α) : Prop := ∀ᶠ n in Filter.atTop, f n = some a

theorem Settles.unique {f : ℕ → Option α} {a b : α} (ha : Settles f a) (hb : Settles f b) :
    a = b := by
  obtain ⟨n, hna, hnb⟩ := (ha.and hb).exists
  exact Option.some.inj (hna.symm.trans hnb)

theorem settles_const_iff {x : Option α} {a : α} : Settles (fun _ => x) a ↔ x = some a :=
  Filter.eventually_const

theorem settles_some (a : α) : Settles (fun _ => some a) a := settles_const_iff.mpr rfl

theorem Settles.bind {f : ℕ → Option α} {g : α → ℕ → Option β} {a : α} {b : β}
    (hf : Settles f a) (hg : Settles (g a) b) : Settles (fun n => (f n).bind fun x => g x n) b := by
  filter_upwards [hf, hg] with n hfn hgn
  rw [hfn, Option.bind_some, hgn]

theorem Settles.map {f : ℕ → Option α} {a : α} (hf : Settles f a) (g : α → β) :
    Settles (fun n => (f n).map g) (g a) := by
  filter_upwards [hf] with n hfn
  rw [hfn, Option.map_some]

/-- What a computation comes to with enough fuel is its value, if it is one. -/
theorem settles_iff_of_eventually {f : ℕ → Option α} {x : Option α}
    (h : ∀ᶠ n in Filter.atTop, f n = x) {a : α} : Settles f a ↔ x = some a := by
  rw [← settles_const_iff]
  exact Filter.eventually_congr (h.mono fun n hn => by rw [hn])

theorem settles_map_iff {f : ℕ → Option α} {g : α → β} (hg : Function.Injective g) {b : β} :
    Settles (fun n => (f n).map g) b ↔ ∃ a, Settles f a ∧ b = g a := by
  constructor
  · intro h
    obtain ⟨n, hn⟩ := h.exists
    obtain ⟨a, -, hga⟩ := Option.map_eq_some_iff.mp hn
    refine ⟨a, ?_, hga.symm⟩
    filter_upwards [h] with m hm
    obtain ⟨x, hx, hgx⟩ := Option.map_eq_some_iff.mp hm
    rw [hx, hg (hgx.trans hga.symm)]
  · rintro ⟨a, ha, rfl⟩
    exact ha.map g

/-- With one unit of fuel more or less the value is the same. -/
theorem settles_succ_iff {f : ℕ → Option α} {a : α} :
    Settles (fun n => f (n + 1)) a ↔ Settles f a := by
  conv_rhs => rw [Settles, ← Filter.map_add_atTop_eq_nat 1, Filter.eventually_map]
  exact Iff.rfl

/-- More fuel does not change a value. -/
def Stable (f : ℕ → Option α) : Prop := ∀ n a, f n = some a → f (n + 1) = some a

theorem stable_const (x : Option α) : Stable fun _ => x := fun _ _ h => h

theorem Stable.map {f : ℕ → Option α} (hf : Stable f) (g : α → β) :
    Stable fun n => (f n).map g := by
  intro n b hb
  obtain ⟨a, ha, rfl⟩ := Option.map_eq_some_iff.mp hb
  show (f (n + 1)).map g = _
  rw [hf n a ha, Option.map_some]

theorem Stable.bind {f : ℕ → Option α} {g : α → ℕ → Option β} (hf : Stable f)
    (hg : ∀ a, Stable (g a)) : Stable fun n => (f n).bind fun x => g x n := by
  intro n b hb
  obtain ⟨a, ha, hab⟩ := Option.bind_eq_some_iff.mp hb
  show (f (n + 1)).bind _ = some b
  rw [hf n a ha, Option.bind_some]
  exact hg a n b hab

theorem Stable.settles {f : ℕ → Option α} (hf : Stable f) {n : ℕ} {a : α} (h : f n = some a) :
    Settles f a := by
  refine Filter.eventually_atTop.mpr ⟨n, fun m hm => ?_⟩
  induction m, hm using Nat.le_induction with
  | base => exact h
  | succ m _ ih => exact hf m a ih

/-- A sequence of computations has a value if and only if both parts have theirs. -/
theorem settles_bind_iff {f : ℕ → Option α} (hf : Stable f) {g : α → ℕ → Option β} {b : β} :
    Settles (fun n => (f n).bind fun x => g x n) b ↔ ∃ a, Settles f a ∧ Settles (g a) b := by
  constructor
  · intro h
    obtain ⟨n, hn⟩ := h.exists
    obtain ⟨a, ha, -⟩ := Option.bind_eq_some_iff.mp hn
    refine ⟨a, hf.settles ha, ?_⟩
    filter_upwards [hf.settles ha, h] with m hm hb
    rwa [hm, Option.bind_some] at hb
  · rintro ⟨a, ha, hb⟩
    exact ha.bind hb

/-! ### Loops -/

/-- A loop: one round goes on with a state or leaves with a value. -/
def runLoop (step : σ → σ ⊕ α) : ℕ → σ → Option α
  | 0, _ => none
  | n + 1, s =>
      match step s with
      | .inl s' => runLoop step n s'
      | .inr a => some a

variable {step : σ → σ ⊕ α} {s s' : σ} {a : α}

/-- The loop that begins at `s` is left with the value `a`. -/
def Leaves (step : σ → σ ⊕ α) (s : σ) (a : α) : Prop := Settles (fun n => runLoop step n s) a

theorem leaves_of_inr (h : step s = .inr a) : Leaves step s a := by
  apply settles_succ_iff.mp
  simp only [runLoop, h]
  exact settles_some a

theorem leaves_of_inr_iff (h : step s = .inr a) {b : α} : Leaves step s b ↔ b = a :=
  ⟨fun hb => hb.unique (leaves_of_inr h), fun heq => heq ▸ leaves_of_inr h⟩

theorem leaves_of_inl (h : step s = .inl s') : Leaves step s a ↔ Leaves step s' a := by
  rw [Leaves, ← settles_succ_iff]
  simp only [runLoop, h]
  exact Iff.rfl

theorem stable_runLoop (step : σ → σ ⊕ α) (s : σ) : Stable fun n => runLoop step n s := by
  intro n a h
  induction n generalizing s with
  | zero => cases h
  | succ n ih =>
      simp only [runLoop] at h ⊢
      split at h
      · next s' hs => exact ih s' h
      · next b hs => exact h

/-- What holds of every value the loop can be left with. -/
theorem Leaves.of_inr {P : α → Prop} (h : Leaves step s a)
    (hstep : ∀ s a, step s = .inr a → P a) : P a := by
  obtain ⟨n, hn⟩ : ∃ n, runLoop step n s = some a := h.exists
  induction n generalizing s with
  | zero => cases hn
  | succ n ih =>
      rw [runLoop] at hn
      split at hn
      · next s' hs => exact ih ((leaves_of_inl hs).mp h) hn
      · next b hs =>
          obtain rfl := Option.some.inj hn
          exact hstep s b hs

/-- A loop is left if something gets smaller in every round. -/
theorem exists_leaves (size : σ → ℕ) (hstep : ∀ s s', step s = .inl s' → size s' < size s)
    (s : σ) : ∃ a, Leaves step s a := by
  induction hn : size s using Nat.strong_induction_on generalizing s with
  | _ n ih =>
      cases hs : step s with
      | inl s' =>
          obtain ⟨a, ha⟩ := ih (size s') (hn ▸ hstep s s' hs) s' rfl
          exact ⟨a, (leaves_of_inl hs).mpr ha⟩
      | inr a => exact ⟨a, leaves_of_inr hs⟩

/-- A loop that stays in a set of states is not left. -/
theorem runLoop_eq_none {I : σ → Prop} (hstep : ∀ s, I s → ∃ s', step s = .inl s' ∧ I s')
    (hs : I s) (n : ℕ) : runLoop step n s = none := by
  induction n generalizing s with
  | zero => rfl
  | succ n ih =>
      obtain ⟨s', heq, hs'⟩ := hstep s hs
      simp only [runLoop, heq]
      exact ih hs'

theorem not_leaves {I : σ → Prop} (hstep : ∀ s, I s → ∃ s', step s = .inl s' ∧ I s')
    (hs : I s) (a : α) : ¬Leaves step s a := by
  intro h
  obtain ⟨n, hn⟩ : ∃ n, runLoop step n s = some a := h.exists
  rw [runLoop_eq_none hstep hs n] at hn
  cases hn

end Grvy.Lib
