import Mathlib.Data.List.Perm.Basic
import Mathlib.Data.List.Pairwise
import Mathlib.Order.Defs.Unbundled

/-!
Maps ordered by a comparison that may not tell all keys apart.

A map keeps its entries in the order of a strict comparison of keys. Assigning
to a key that is neither before nor after a key of the map replaces the value
stored there and keeps the key that is there already. If all keys assigned can
be told apart, the map holds them all, in order; otherwise it has lost an entry
for each tie.
-/

namespace Grvy.Lib.ComparedMap

variable {κ β : Type*} {lt : κ → κ → Prop}

/-- The comparison tells two keys apart. -/
def Apart (lt : κ → κ → Prop) (a b : κ) : Prop := lt a b ∨ lt b a

theorem Apart.symm {a b : κ} (h : Apart lt a b) : Apart lt b a := Or.symm h

/-- The entries are in the order of their keys. -/
def Ordered (lt : κ → κ → Prop) (m : List (κ × β)) : Prop := m.Pairwise fun e e' => lt e.1 e'.1

section Assign

variable (lt) [DecidableRel lt]

/-- `m[k] = v` -/
def assign (k : κ) (v : β) : List (κ × β) → List (κ × β)
  | [] => [(k, v)]
  | (k', v') :: m =>
      if lt k k' then (k, v) :: (k', v') :: m
      else if lt k' k then (k', v') :: assign k v m
      else (k', v) :: m

/-- Assign a list of entries one after another. -/
def assignAll (m es : List (κ × β)) : List (κ × β) := es.foldl (fun m e => assign lt e.1 e.2 m) m

end Assign

variable [DecidableRel lt] {k : κ} {v : β} {m es : List (κ × β)}

/-! ### One assignment -/

theorem key_of_mem_assign {e : κ × β} (h : e ∈ assign lt k v m) :
    e.1 = k ∨ ∃ e' ∈ m, e'.1 = e.1 := by
  induction m with
  | nil =>
      rw [assign, List.mem_singleton] at h
      exact Or.inl (by rw [h])
  | cons e₀ m ih =>
      obtain ⟨k', v'⟩ := e₀
      rw [assign] at h
      split_ifs at h with hbefore hafter
      · rcases List.mem_cons.mp h with rfl | h
        · exact Or.inl rfl
        · exact Or.inr ⟨e, h, rfl⟩
      · rcases List.mem_cons.mp h with rfl | h
        · exact Or.inr ⟨(k', v'), List.mem_cons_self, rfl⟩
        · rcases ih h with hkey | ⟨e', he', hkey⟩
          · exact Or.inl hkey
          · exact Or.inr ⟨e', List.mem_cons_of_mem _ he', hkey⟩
      · rcases List.mem_cons.mp h with rfl | h
        · exact Or.inr ⟨(k', v'), List.mem_cons_self, rfl⟩
        · exact Or.inr ⟨e, List.mem_cons_of_mem _ h, rfl⟩

theorem ordered_assign [IsTrans κ lt] (h : Ordered lt m) : Ordered lt (assign lt k v m) := by
  induction m with
  | nil => exact List.pairwise_singleton _ _
  | cons e₀ m ih =>
      obtain ⟨k', v'⟩ := e₀
      obtain ⟨hfirst, hrest⟩ := List.pairwise_cons.mp h
      rw [assign]
      split_ifs with hbefore hafter
      · refine List.pairwise_cons.mpr ⟨fun e he => ?_, h⟩
        rcases List.mem_cons.mp he with rfl | he
        · exact hbefore
        · exact trans_of lt hbefore (hfirst e he)
      · refine List.pairwise_cons.mpr ⟨fun e he => ?_, ih hrest⟩
        rcases key_of_mem_assign he with hkey | ⟨e', he', hkey⟩
        · rw [hkey]
          exact hafter
        · rw [← hkey]
          exact hfirst e' he'
      · exact List.pairwise_cons.mpr ⟨hfirst, hrest⟩

/-- A key told apart from all keys of the map gets an entry of its own. -/
theorem assign_perm (h : ∀ e ∈ m, Apart lt k e.1) : (assign lt k v m).Perm ((k, v) :: m) := by
  induction m with
  | nil => exact List.Perm.refl _
  | cons e₀ m ih =>
      obtain ⟨k', v'⟩ := e₀
      rw [assign]
      split_ifs with hbefore hafter
      · exact List.Perm.refl _
      · have hrest := ih fun e he => h e (List.mem_cons_of_mem _ he)
        exact (hrest.cons _).trans (List.Perm.swap _ _ _)
      · rcases h (k', v') List.mem_cons_self with hlt | hlt
        · exact absurd hlt hbefore
        · exact absurd hlt hafter

theorem length_assign_le : (assign lt k v m).length ≤ m.length + 1 := by
  induction m with
  | nil => exact Nat.le_refl _
  | cons e₀ m ih =>
      rw [assign]
      split_ifs
      · exact Nat.le_refl _
      · exact Nat.succ_le_succ ih
      · exact Nat.le_succ _

/-- Conversely, an assignment makes the map longer only if its key can be told
apart from all keys of the map. -/
theorem apart_of_length_assign [IsTrans κ lt] (h : Ordered lt m)
    (hlen : (assign lt k v m).length = m.length + 1) : ∀ e ∈ m, Apart lt k e.1 := by
  induction m with
  | nil =>
      intro e he
      cases he
  | cons e₀ m ih =>
      obtain ⟨k', v'⟩ := e₀
      obtain ⟨hfirst, hrest⟩ := List.pairwise_cons.mp h
      rw [assign] at hlen
      intro e he
      split_ifs at hlen with hbefore hafter
      · rcases List.mem_cons.mp he with rfl | he
        · exact Or.inl hbefore
        · exact Or.inl (trans_of lt hbefore (hfirst e he))
      · rcases List.mem_cons.mp he with rfl | he
        · exact Or.inr hafter
        · exact ih hrest (Nat.succ.inj hlen) e he
      · exact absurd hlen (by simp)

/-- What holds of the pairs assigned, whichever of two tied keys they have, holds
of the entries. -/
theorem forall_assign {P : κ → β → Prop}
    (htied : ∀ a b v, ¬Apart lt a b → P a v → P b v) (hnew : P k v)
    (h : ∀ e ∈ m, P e.1 e.2) : ∀ e ∈ assign lt k v m, P e.1 e.2 := by
  induction m with
  | nil =>
      intro e he
      rw [assign, List.mem_singleton] at he
      rw [he]
      exact hnew
  | cons e₀ m ih =>
      obtain ⟨k', v'⟩ := e₀
      intro e he
      rw [assign] at he
      split_ifs at he with hbefore hafter
      · rcases List.mem_cons.mp he with rfl | he
        · exact hnew
        · exact h e he
      · rcases List.mem_cons.mp he with rfl | he
        · exact h _ List.mem_cons_self
        · exact ih (fun e' he' => h e' (List.mem_cons_of_mem _ he')) e he
      · rcases List.mem_cons.mp he with rfl | he
        · exact htied k k' v (fun hapart => hapart.elim hbefore hafter) hnew
        · exact h e (List.mem_cons_of_mem _ he)

/-! ### A list of assignments -/

theorem ordered_assignAll [IsTrans κ lt] (h : Ordered lt m) : Ordered lt (assignAll lt m es) := by
  induction es generalizing m with
  | nil => exact h
  | cons e es ih => exact ih (ordered_assign h)

theorem forall_assignAll {P : κ → β → Prop}
    (htied : ∀ a b v, ¬Apart lt a b → P a v → P b v) (hnew : ∀ e ∈ es, P e.1 e.2)
    (h : ∀ e ∈ m, P e.1 e.2) : ∀ e ∈ assignAll lt m es, P e.1 e.2 := by
  induction es generalizing m with
  | nil => exact h
  | cons e es ih =>
      exact ih (fun e' he' => hnew e' (List.mem_cons_of_mem _ he'))
        (forall_assign htied (hnew e List.mem_cons_self) h)

theorem length_assignAll_le : (assignAll lt m es).length ≤ m.length + es.length := by
  induction es generalizing m with
  | nil => exact Nat.le_refl _
  | cons e es ih =>
      have hrest : (assignAll lt m (e :: es)).length ≤ (assign lt e.1 e.2 m).length + es.length :=
        ih
      have hone : (assign lt e.1 e.2 m).length ≤ m.length + 1 := length_assign_le
      rw [List.length_cons]
      omega

/-- Keys that can all be told apart are all kept. -/
theorem assignAll_perm (h : (m ++ es).Pairwise fun e e' => Apart lt e.1 e'.1) :
    (assignAll lt m es).Perm (m ++ es) := by
  induction es generalizing m with
  | nil =>
      rw [List.append_nil]
      exact List.Perm.refl _
  | cons e es ih =>
      obtain ⟨-, -, hacross⟩ := List.pairwise_append.mp h
      have hone : (assign lt e.1 e.2 m).Perm (e :: m) :=
        assign_perm fun e' he' => (hacross e' he' e List.mem_cons_self).symm
      have hmove : (assign lt e.1 e.2 m ++ es).Perm (m ++ e :: es) :=
        (hone.append_right es).trans List.perm_middle.symm
      have happart : (assign lt e.1 e.2 m ++ es).Pairwise fun e e' => Apart lt e.1 e'.1 :=
        (hmove.pairwise_iff Apart.symm).mpr h
      exact (ih happart).trans hmove

/-- If no entry is lost, all keys can be told apart. -/
theorem apart_of_length_assignAll [IsTrans κ lt] (h : Ordered lt m)
    (hlen : (assignAll lt m es).length = m.length + es.length) :
    (m ++ es).Pairwise fun e e' => Apart lt e.1 e'.1 := by
  induction es generalizing m with
  | nil =>
      rw [List.append_nil]
      exact h.imp Or.inl
  | cons e es ih =>
      have hrest : (assignAll lt m (e :: es)).length ≤ (assign lt e.1 e.2 m).length + es.length :=
        length_assignAll_le (m := assign lt e.1 e.2 m)
      have hone : (assign lt e.1 e.2 m).length ≤ m.length + 1 := length_assign_le
      rw [hlen, List.length_cons] at hrest
      have hgrow : (assign lt e.1 e.2 m).length = m.length + 1 := by omega
      have hperm : (assign lt e.1 e.2 m).Perm (e :: m) :=
        assign_perm (apart_of_length_assign h hgrow)
      have happart : (assign lt e.1 e.2 m ++ es).Pairwise fun e e' => Apart lt e.1 e'.1 := by
        apply ih (ordered_assign h)
        calc (assignAll lt (assign lt e.1 e.2 m) es).length
            = m.length + (e :: es).length := hlen
          _ = (assign lt e.1 e.2 m).length + es.length := by
              rw [hgrow, List.length_cons]
              omega
      have hmove : (assign lt e.1 e.2 m ++ es).Perm (m ++ e :: es) :=
        (hperm.append_right es).trans List.perm_middle.symm
      exact (hmove.pairwise_iff Apart.symm).mp happart

end Grvy.Lib.ComparedMap
