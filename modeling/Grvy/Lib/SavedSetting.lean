import Mathlib.Logic.Basic

/-!
A setting that is changed for a while and put back.

The setting belongs to the environment of a program, and the program has one
slot to save it in. A *bracket* saves the setting and changes it, does
something and puts the saved one back. It restores the setting whenever what
it encloses leaves the slot alone. A second bracket inside the first does not:
it saves the changed setting over the original one, which is lost.
-/

namespace Grvy.Lib

/-- A state with a setting of its environment and the slot for saving it. -/
structure WithSetting (σ V : Type) where
  state : σ
  current : V
  slot : V

/-- A program that may stop without returning. -/
abbrev SettingM (σ V α : Type) := StateT (WithSetting σ V) Option α

variable {σ V α β : Type}

namespace WithSetting

/-- Save the setting and change it. -/
def save (v : V) (s : WithSetting σ V) : WithSetting σ V :=
  { s with current := v, slot := s.current }

/-- Set it to what has been saved. -/
def putBack (s : WithSetting σ V) : WithSetting σ V := { s with current := s.slot }

end WithSetting

namespace SettingM

/-- Act on the state alone. -/
def act (op : σ → Option (α × σ)) : SettingM σ V α := fun s =>
  (op s.state).map fun r => (r.1, { s with state := r.2 })

/-- Look at the state alone. -/
def look (f : σ → α) : SettingM σ V α := fun s => some (f s.state, s)

/-- A bracket. -/
def during (v : V) (x : SettingM σ V α) : SettingM σ V α := fun s =>
  (x.run (s.save v)).map fun r => (r.1, r.2.putBack)

/-- The setting is afterwards what it was before. -/
def Restores (x : SettingM σ V α) : Prop :=
  ∀ s a s', x.run s = some (a, s') → s'.current = s.current

/-- Nothing is saved over what is in the slot. -/
def KeepsSlot (x : SettingM σ V α) : Prop :=
  ∀ s a s', x.run s = some (a, s') → s'.slot = s.slot

theorem Restores.pure (a : α) : Restores (Pure.pure a : SettingM σ V α) := by
  intro s b s' h
  cases h
  rfl

theorem Restores.bind {x : SettingM σ V α} {k : α → SettingM σ V β} (hx : Restores x)
    (hk : ∀ a, Restores (k a)) : Restores (x >>= k) := by
  intro s b s' h
  rw [StateT.run_bind] at h
  obtain ⟨⟨a, s₁⟩, hfirst, hrest⟩ := Option.bind_eq_some_iff.mp h
  exact (hk a s₁ b s' hrest).trans (hx s a s₁ hfirst)

theorem act_returns {op : σ → Option (α × σ)} {s s' : WithSetting σ V} {a : α}
    (h : (act op).run s = some (a, s')) :
    ∃ st, op s.state = some (a, st) ∧ s' = { s with state := st } := by
  obtain ⟨⟨b, st⟩, hop, heq⟩ := Option.map_eq_some_iff.mp h
  cases heq
  exact ⟨st, hop, rfl⟩

theorem restores_act (op : σ → Option (α × σ)) : Restores (act op : SettingM σ V α) := by
  intro s a s' h
  obtain ⟨st, -, rfl⟩ := act_returns h
  rfl

theorem keepsSlot_act (op : σ → Option (α × σ)) : KeepsSlot (act op : SettingM σ V α) := by
  intro s a s' h
  obtain ⟨st, -, rfl⟩ := act_returns h
  rfl

theorem during_returns {v : V} {x : SettingM σ V α} {s s' : WithSetting σ V} {a : α}
    (h : (during v x).run s = some (a, s')) :
    ∃ s₁, x.run (s.save v) = some (a, s₁) ∧ s' = s₁.putBack := by
  obtain ⟨⟨b, s₁⟩, hx, heq⟩ := Option.map_eq_some_iff.mp h
  cases heq
  exact ⟨s₁, hx, rfl⟩

/-- A bracket restores the setting if what it encloses leaves the slot alone. -/
theorem KeepsSlot.during {x : SettingM σ V α} (hx : KeepsSlot x) (v : V) :
    Restores (during v x) := by
  intro s a s' h
  obtain ⟨s₁, hrun, rfl⟩ := during_returns h
  exact hx _ _ _ hrun

/-- A bracket directly inside another leaves the slot with the setting of the outer one. -/
theorem slot_during {v : V} {x : SettingM σ V α} (hx : KeepsSlot x) {s s' : WithSetting σ V}
    {a : α} (h : (SettingM.during v x).run s = some (a, s')) : s'.slot = s.current := by
  obtain ⟨s₁, hrun, rfl⟩ := during_returns h
  exact hx _ _ _ hrun

/-! ### The program without the setting -/

/-- Without the setting the program is `y`. -/
def Erases (x : SettingM σ V α) (y : StateT σ Option α) : Prop :=
  ∀ s, (x.run s).map (fun r => (r.1, r.2.state)) = y.run s.state

theorem erases_act (op : σ → Option (α × σ)) : Erases (act op : SettingM σ V α) op := by
  intro s
  change Option.map _ (Option.map _ (op s.state)) = op s.state
  rw [Option.map_map]
  exact Option.map_id'

theorem Erases.during {x : SettingM σ V α} {y : StateT σ Option α} (h : Erases x y) (v : V) :
    Erases (during v x) y := by
  intro s
  change Option.map _ (Option.map _ (x.run (s.save v))) = y.run s.state
  rw [Option.map_map]
  exact h (s.save v)

theorem Erases.pure (a : α) :
    Erases (Pure.pure a : SettingM σ V α) (Pure.pure a : StateT σ Option α) := fun _ => rfl

theorem Erases.bind {x : SettingM σ V α} {y : StateT σ Option α} {k : α → SettingM σ V β}
    {l : α → StateT σ Option β} (hx : Erases x y) (hk : ∀ a, Erases (k a) (l a)) :
    Erases (x >>= k) (y >>= l) := by
  intro s
  rw [StateT.run_bind, StateT.run_bind, ← hx s, Option.bind_eq_bind, Option.bind_eq_bind,
    Option.map_bind, Option.bind_map]
  congr 1
  funext r
  exact hk r.1 r.2

end SettingM

end Grvy.Lib
