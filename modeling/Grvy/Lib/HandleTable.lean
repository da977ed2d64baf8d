import Mathlib.Data.List.MinMax
import Grvy.Lib.TreeMapCensus

/-!
Tables of handles, for programs that hold on to what a library has opened for
them.

A handle is a number, and 0 never is one. A library issues a handle that it has
not issued before; which one is left open. A closed handle stays closed, so that
a program that keeps it cannot reach anything through it.
-/

namespace Grvy.Lib

open Std

/-- The handles that have been issued. A closed one is kept with `none`. -/
structure HandleTable (α : Type) where
  issued : TreeMap ℕ (Option α)
  zero_not_issued : issued[0]? = none

/-- How a library chooses the next handle. -/
structure Allocator (α : Type) where
  fresh : HandleTable α → ℕ
  fresh_ne_zero : ∀ t, fresh t ≠ 0
  fresh_not_issued : ∀ t : HandleTable α, t.issued[fresh t]? = none

namespace HandleTable

variable {α : Type} {alloc : Allocator α} {t : HandleTable α} {h h' : ℕ} {a b : α}

def empty : HandleTable α where
  issued := ∅
  zero_not_issued := TreeMap.getElem?_emptyc

/-- What `h` is an open handle of. -/
def get (t : HandleTable α) (h : ℕ) : Option α := t.issued[h]?.getD none

/-- The table after a handle of `a` has been issued. -/
def opened (alloc : Allocator α) (a : α) (t : HandleTable α) : HandleTable α where
  issued := t.issued.insert (alloc.fresh t) (some a)
  zero_not_issued := by
    rw [getElem?_insert_of_ne (alloc.fresh_ne_zero t).symm]
    exact t.zero_not_issued

/-- Close `h` if it is an open handle of something `p` accepts. -/
def close (p : α → Bool) (h : ℕ) (t : HandleTable α) : HandleTable α :=
  if hopen : (t.get h).any p = true then
    { issued := t.issued.insert h none
      zero_not_issued := by
        have hne : (0 : ℕ) ≠ h := by
          rintro rfl
          simp [get, t.zero_not_issued] at hopen
        rw [getElem?_insert_of_ne hne]
        exact t.zero_not_issued }
  else t

@[simp] theorem get_zero (t : HandleTable α) : t.get 0 = none := by
  simp [get, t.zero_not_issued]

@[simp] theorem get_fresh (t : HandleTable α) : t.get (alloc.fresh t) = none := by
  simp [get, alloc.fresh_not_issued]

theorem ne_fresh (hget : t.get h = some a) : h ≠ alloc.fresh t := by
  rintro rfl
  rw [get_fresh] at hget
  cases hget

@[simp] theorem get_opened_fresh (t : HandleTable α) (a : α) :
    (t.opened alloc a).get (alloc.fresh t) = some a := by
  simp [get, opened]

theorem get_opened_of_ne (hne : h ≠ alloc.fresh t) (a : α) :
    (t.opened alloc a).get h = t.get h := by
  rw [get, opened, getElem?_insert_of_ne hne]
  rfl

/-- What is open stays open when another handle is issued. -/
theorem get_opened (hget : t.get h = some b) (a : α) : (t.opened alloc a).get h = some b := by
  rw [get_opened_of_ne (ne_fresh hget), hget]

theorem get_close_of_ne (p : α → Bool) (hne : h' ≠ h) : (t.close p h).get h' = t.get h' := by
  rw [close]
  split
  · exact congrArg (Option.getD · none) (getElem?_insert_of_ne hne)
  · rfl

theorem get_close_self {p : α → Bool} (hget : t.get h = some a) (hp : p a = true) :
    (t.close p h).get h = none := by
  have hopen : (t.get h).any p = true := by simpa [hget] using hp
  rw [close, dif_pos hopen]
  simp [get]

/-- A handle of something else is not closed. -/
theorem get_close_of_not {p : α → Bool} (hget : t.get h = some a) (hp : p a = false) (h' : ℕ) :
    (t.close p h').get h = some a := by
  by_cases hne : h = h'
  · subst hne
    rw [close, dif_neg (by simp [hget, hp]), hget]
  · rw [get_close_of_ne p hne, hget]

theorem close_of_closed (p : α → Bool) (hget : t.get h = none) : t.close p h = t :=
  dif_neg (by simp [hget])

/-- Opening something and closing it again leaves what is open. -/
theorem get_close_opened {p : α → Bool} (hp : p a = true) (h : ℕ) :
    ((t.opened alloc a).close p (alloc.fresh t)).get h = t.get h := by
  by_cases hne : h = alloc.fresh t
  · rw [hne, get_close_self (get_opened_fresh t a) hp, get_fresh]
  · rw [get_close_of_ne p hne, get_opened_of_ne hne]

/-! ### Closed handles -/

/-- `h` has been issued and closed again. -/
def Closed (t : HandleTable α) (h : ℕ) : Prop := t.issued[h]? = some none

theorem Closed.get_eq (hclosed : t.Closed h) : t.get h = none := by
  rw [Closed] at hclosed
  simp [get, hclosed]

theorem Closed.opened (hclosed : t.Closed h) (a : α) : (t.opened alloc a).Closed h := by
  have hne : h ≠ alloc.fresh t := by
    rintro rfl
    rw [Closed, alloc.fresh_not_issued] at hclosed
    cases hclosed
  rw [Closed, HandleTable.opened, getElem?_insert_of_ne hne]
  exact hclosed

theorem Closed.close (hclosed : t.Closed h) (p : α → Bool) (h' : ℕ) : (t.close p h').Closed h := by
  by_cases hne : h = h'
  · rw [← hne, close_of_closed p hclosed.get_eq]
    exact hclosed
  · rw [HandleTable.close]
    split
    · exact (getElem?_insert_of_ne hne).trans hclosed
    · exact hclosed

theorem closed_close {p : α → Bool} (hget : t.get h = some a) (hp : p a = true) :
    (t.close p h).Closed h := by
  have hopen : (t.get h).any p = true := by simpa [hget] using hp
  rw [Closed, close, dif_pos hopen]
  exact TreeMap.getElem?_insert_self

/-! ### What stays open -/

/-- What is open in `t` is open in `t'`, under the same handle. -/
def Keeps (t t' : HandleTable α) : Prop := ∀ h a, t.get h = some a → t'.get h = some a

theorem Keeps.refl (t : HandleTable α) : t.Keeps t := fun _ _ hget => hget

theorem Keeps.trans {t t' t'' : HandleTable α} (hkeep : t.Keeps t') (hkeep' : t'.Keeps t'') :
    t.Keeps t'' :=
  fun h a hget => hkeep' h a (hkeep h a hget)

theorem keeps_opened (alloc : Allocator α) (t : HandleTable α) (a : α) :
    t.Keeps (t.opened alloc a) :=
  fun _ _ hget => get_opened hget a

theorem keeps_close_opened (alloc : Allocator α) (t : HandleTable α) {p : α → Bool}
    (hp : p a = true) : t.Keeps ((t.opened alloc a).close p (alloc.fresh t)) :=
  fun h b hget => by rw [get_close_opened hp, hget]

/-- What is open stays open, and what is closed stays closed. -/
structure Extends (t t' : HandleTable α) : Prop where
  keeps : t.Keeps t'
  closed : ∀ h, t.Closed h → t'.Closed h

theorem Extends.refl (t : HandleTable α) : t.Extends t := ⟨.refl t, fun _ h => h⟩

theorem Extends.trans {t t' t'' : HandleTable α} (hext : t.Extends t') (hext' : t'.Extends t'') :
    t.Extends t'' :=
  ⟨hext.keeps.trans hext'.keeps, fun h hclosed => hext'.closed h (hext.closed h hclosed)⟩

theorem extends_opened (alloc : Allocator α) (t : HandleTable α) (a : α) :
    t.Extends (t.opened alloc a) :=
  ⟨keeps_opened alloc t a, fun _ hclosed => hclosed.opened a⟩

theorem extends_close_opened (alloc : Allocator α) (t : HandleTable α) {p : α → Bool}
    (hp : p a = true) : t.Extends ((t.opened alloc a).close p (alloc.fresh t)) :=
  ⟨keeps_close_opened alloc t hp, fun _ hclosed => (hclosed.opened a).close p _⟩

/-! ### Handles kept by name -/

section Current

variable {κ : Type} [Ord κ] {t' : HandleTable α} {cache : TreeMap κ ℕ}
  {object object' : κ → Option α} {k : κ}

/-- Every handle kept in a cache is an open one of what its name stands for. -/
def Current (t : HandleTable α) (cache : TreeMap κ ℕ) (object : κ → Option α) : Prop :=
  ∀ k h, cache[k]? = some h → ∃ a, object k = some a ∧ t.get h = some a

theorem Current.keeps (hcur : t.Current cache object) (hkeep : t.Keeps t') :
    t'.Current cache object := by
  intro k h hk
  obtain ⟨a, ha, hget⟩ := hcur k h hk
  exact ⟨a, ha, hkeep h a hget⟩

variable [TransOrd κ]

theorem current_of_isEmpty (t : HandleTable α) (object : κ → Option α)
    (hempty : cache.isEmpty = true) : t.Current cache object := by
  intro k h hk
  rw [TreeMap.getElem?_of_isEmpty hempty] at hk
  cases hk

/-- If no name stands for anything, nothing is kept. -/
theorem Current.isEmpty (hcur : t.Current cache object) (hnone : ∀ k, object k = none) :
    cache.isEmpty = true := by
  rw [TreeMap.isEmpty_iff_forall_not_mem]
  intro k hk
  obtain ⟨h, hkey⟩ := Option.isSome_iff_exists.mp (TreeMap.isSome_getElem?_iff_mem.mpr hk)
  obtain ⟨a, ha, -⟩ := hcur k h hkey
  rw [hnone] at ha
  cases ha

variable [LawfulEqOrd κ]

/-- An entry may be put under a name that stands for what the handle is open for. -/
theorem Current.insert (hcur : t.Current cache object) (hget : t.get h = some a)
    (hk : object' k = some a) (hother : ∀ k', k' ≠ k → object' k' = object k') :
    t.Current (cache.insert k h) object' := by
  intro k' h' hk'
  by_cases hne : k' = k
  · subst hne
    rw [TreeMap.getElem?_insert_self] at hk'
    cases hk'
    exact ⟨a, hk, hget⟩
  · rw [getElem?_insert_of_ne hne] at hk'
    rw [hother k' hne]
    exact hcur k' h' hk'

end Current

end HandleTable

/-! ### A library that counts -/

/-- The handle after the largest one issued. -/
def Allocator.next (α : Type) : Allocator α where
  fresh t := (t.issued.keys.foldr max 0) + 1
  fresh_ne_zero _ := Nat.succ_ne_zero _
  fresh_not_issued t := by
    apply TreeMap.getElem?_eq_none
    intro hmem
    have hle := List.le_max_of_le' 0 (TreeMap.mem_keys.mpr hmem) (Nat.le_refl _)
    exact absurd hle (Nat.not_succ_le_self _)

end Grvy.Lib
