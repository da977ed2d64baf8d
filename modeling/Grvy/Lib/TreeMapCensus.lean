import Mathlib.Data.List.Perm.Basic
import Mathlib.Data.List.Nodup

/-!
Counting the entries of an ordered map.

A *census* of a tree map lists one value for each entry that a partial
function selects, in key order. The lemmas say how a census changes when one
key is bound or rebound: as a multiset it gains the value of the new binding
and loses the value of the old one. An invariant about "the indices held by
the live entries" is then list algebra up to permutation, with no reasoning
about the shape of the tree.
-/

namespace Grvy.Lib

open Std

section Census

variable {κ : Type} {β : Type} {γ : Type} [Ord κ]

/-- The values `f` selects from the entries of a map, in key order. -/
def census (f : κ → β → Option γ) (t : TreeMap κ β) : List γ :=
  t.toList.filterMap fun e => f e.1 e.2

/-- The entries of a map other than the one at `k`. -/
def others [DecidableEq κ] (t : TreeMap κ β) (k : κ) : List (κ × β) :=
  t.toList.filter fun e => decide (e.1 ≠ k)

variable [TransOrd κ] [LawfulEqOrd κ]

theorem getElem?_insert_of_ne {t : TreeMap κ β} {k k' : κ} {v : β} (h : k' ≠ k) :
    (t.insert k v)[k']? = t[k']? := by
  rw [TreeMap.getElem?_insert, if_neg fun hc => h (Std.compare_eq_iff_eq.mp hc).symm]

theorem mem_census {f : κ → β → Option γ} {t : TreeMap κ β} {x : γ} :
    x ∈ census f t ↔ ∃ k v, t[k]? = some v ∧ f k v = some x := by
  constructor
  · intro hx
    obtain ⟨⟨k, v⟩, hmem, hf⟩ := List.mem_filterMap.mp hx
    exact ⟨k, v, TreeMap.mem_toList_iff_getElem?_eq_some.mp hmem, hf⟩
  · rintro ⟨k, v, hv, hf⟩
    exact List.mem_filterMap.mpr
      ⟨(k, v), TreeMap.mem_toList_iff_getElem?_eq_some.mpr hv, hf⟩

theorem nodup_toList (t : TreeMap κ β) : t.toList.Nodup :=
  TreeMap.distinct_keys_toList.imp fun {a b} hne heq =>
    hne (by rw [heq]; exact compare_self)

variable [DecidableEq κ]

theorem others_of_getElem?_eq_none {t : TreeMap κ β} {k : κ} (h : t[k]? = none) :
    others t k = t.toList := by
  refine List.filter_eq_self.mpr fun e he => ?_
  have hv : t[e.1]? = some e.2 := TreeMap.mem_toList_iff_getElem?_eq_some.mp he
  refine decide_eq_true fun heq => ?_
  rw [heq, h] at hv
  cases hv

theorem toList_perm_of_getElem? {t : TreeMap κ β} {k : κ} {v : β} (h : t[k]? = some v) :
    t.toList.Perm ((k, v) :: others t k) := by
  refine (List.perm_ext_iff_of_nodup (nodup_toList t) ?_).mpr fun e => ?_
  · exact List.nodup_cons.mpr ⟨by simp [others], (nodup_toList t).filter _⟩
  · obtain ⟨k', v'⟩ := e
    simp only [others, List.mem_cons, List.mem_filter, decide_eq_true_eq, Prod.mk.injEq,
      TreeMap.mem_toList_iff_getElem?_eq_some]
    by_cases hk : k' = k
    · subst hk
      rw [h]
      simp [eq_comm]
    · simp [hk]

theorem toList_insert_perm_others (t : TreeMap κ β) (k : κ) (v : β) :
    (t.insert k v).toList.Perm ((k, v) :: others t k) := by
  have hself : (t.insert k v)[k]? = some v := TreeMap.getElem?_insert_self
  refine (toList_perm_of_getElem? hself).trans (List.Perm.cons _ ?_)
  refine (List.perm_ext_iff_of_nodup ((nodup_toList _).filter _)
    ((nodup_toList _).filter _)).mpr fun e => ?_
  obtain ⟨k', v'⟩ := e
  simp only [List.mem_filter, decide_eq_true_eq, TreeMap.mem_toList_iff_getElem?_eq_some]
  exact and_congr_left fun hk => by rw [getElem?_insert_of_ne hk]

/-- Binding a new key adds the value selected from the new entry. -/
theorem census_insert_of_getElem?_eq_none (f : κ → β → Option γ) {t : TreeMap κ β} {k : κ}
    (v : β) (h : t[k]? = none) :
    (census f (t.insert k v)).Perm ((f k v).toList ++ census f t) := by
  have hperm := (toList_insert_perm_others t k v).filterMap fun e => f e.1 e.2
  rw [others_of_getElem?_eq_none h] at hperm
  refine hperm.trans (List.Perm.of_eq ?_)
  cases hf : f k v <;> simp [census, hf]

/-- What a census holds besides the value of one bound key. -/
theorem census_perm_of_getElem? (f : κ → β → Option γ) {t : TreeMap κ β} {k : κ} {v : β}
    (h : t[k]? = some v) :
    (census f t).Perm ((f k v).toList ++ (others t k).filterMap fun e => f e.1 e.2) := by
  refine ((toList_perm_of_getElem? h).filterMap fun e => f e.1 e.2).trans (List.Perm.of_eq ?_)
  cases hf : f k v <;> simp [hf]

/-- Rebinding a key replaces the value selected from its entry and leaves the
values of the other entries alone. -/
theorem census_insert_perm (f : κ → β → Option γ) (t : TreeMap κ β) (k : κ) (v : β) :
    (census f (t.insert k v)).Perm
      ((f k v).toList ++ (others t k).filterMap fun e => f e.1 e.2) := by
  refine ((toList_insert_perm_others t k v).filterMap fun e => f e.1 e.2).trans
    (List.Perm.of_eq ?_)
  cases hf : f k v <;> simp [hf]

/-- A rebinding from which the same value is selected keeps the census. -/
theorem census_insert_of_eq (f : κ → β → Option γ) {t : TreeMap κ β} {k : κ} {v v' : β}
    (h : t[k]? = some v) (hf : f k v' = f k v) :
    (census f (t.insert k v')).Perm (census f t) := by
  refine (census_insert_perm f t k v').trans ?_
  rw [hf]
  exact (census_perm_of_getElem? f h).symm

/-- In a census without repetitions a value determines the key it comes from. -/
theorem key_eq_of_census_nodup {f : κ → β → Option γ} {t : TreeMap κ β}
    (hnodup : (census f t).Nodup) {k k' : κ} {v v' : β} {x : γ}
    (hk : t[k]? = some v) (hk' : t[k']? = some v')
    (hx : f k v = some x) (hx' : f k' v' = some x) : k = k' := by
  by_contra hne
  have hperm := census_perm_of_getElem? f hk
  rw [hx] at hperm
  have hmem : x ∈ (others t k).filterMap fun e => f e.1 e.2 := by
    refine List.mem_filterMap.mpr ⟨(k', v'), ?_, hx'⟩
    refine List.mem_filter.mpr ⟨TreeMap.mem_toList_iff_getElem?_eq_some.mpr hk', ?_⟩
    exact decide_eq_true (Ne.symm hne)
  have hcons := hperm.nodup_iff.mp hnodup
  exact (List.nodup_cons.mp hcons).1 hmem

end Census

/-! ### The first entry -/

section First

variable {κ : Type} {β β' : Type} [Ord κ] [TransOrd κ] [LawfulEqOrd κ]

theorem minKey?_eq_of_head?_toList {t : TreeMap κ β} {e : κ × β} (h : t.toList.head? = some e) :
    t.minKey? = some e.1 ∧ t[e.1]? = some e.2 := by
  refine ⟨?_, TreeMap.mem_toList_iff_getElem?_eq_some.mp (List.mem_of_head? h)⟩
  rw [TreeMap.minKey?_eq_head?_keys, ← TreeMap.map_fst_toList_eq_keys, List.head?_map, h]
  rfl

omit [LawfulEqOrd κ] in
theorem head?_toList_eq_of_minKey? {t : TreeMap κ β} {k : κ} (h : t.minKey? = some k) :
    ∃ v, t.toList.head? = some (k, v) := by
  rw [TreeMap.minKey?_eq_head?_keys, ← TreeMap.map_fst_toList_eq_keys, List.head?_map,
    Option.map_eq_some_iff] at h
  obtain ⟨⟨k', v⟩, hhead, rfl⟩ := h
  exact ⟨v, hhead⟩

/-- The first key depends on the keys alone. -/
theorem minKey?_congr {t : TreeMap κ β} {t' : TreeMap κ β'} (h : ∀ k, k ∈ t ↔ k ∈ t') :
    t.minKey? = t'.minKey? := by
  ext k
  rw [TreeMap.minKey?_eq_some_iff_mem_and_forall, TreeMap.minKey?_eq_some_iff_mem_and_forall]
  simp only [h]

/-- Two maps with the same keys have a first entry or none together, and it has
the same key. -/
theorem head?_toList_congr {t : TreeMap κ β} {t' : TreeMap κ β'} (h : ∀ k, k ∈ t ↔ k ∈ t') :
    (t.toList.head? = none ∧ t'.toList.head? = none) ∨
      ∃ k v v', t.toList.head? = some (k, v) ∧ t'.toList.head? = some (k, v') := by
  have hmin := minKey?_congr h
  cases hhead : t.toList.head? with
  | some e =>
      obtain ⟨v', hv'⟩ := head?_toList_eq_of_minKey?
        (hmin.symm.trans (minKey?_eq_of_head?_toList hhead).1)
      exact Or.inr ⟨e.1, e.2, v', rfl, hv'⟩
  | none =>
      refine Or.inl ⟨rfl, ?_⟩
      cases hhead' : t'.toList.head? with
      | none => rfl
      | some e' =>
          obtain ⟨v, hv⟩ := head?_toList_eq_of_minKey?
            (hmin.trans (minKey?_eq_of_head?_toList hhead').1)
          rw [hhead] at hv
          cases hv

/-- The keys of a map determine how many there are. -/
theorem keys_congr {t : TreeMap κ β} {t' : TreeMap κ β'} (h : ∀ k, k ∈ t ↔ k ∈ t') :
    t.keys = t'.keys := by
  have hperm : t.keys.Perm t'.keys := by
    refine (List.perm_ext_iff_of_nodup TreeMap.nodup_keys TreeMap.nodup_keys).mpr fun k => ?_
    rw [TreeMap.mem_keys, TreeMap.mem_keys, h k]
  refine hperm.eq_of_pairwise (fun a b _ _ hab hba => ?_) TreeMap.ordered_keys TreeMap.ordered_keys
  rw [OrientedCmp.gt_of_lt hab] at hba
  cases hba

theorem size_congr {t : TreeMap κ β} {t' : TreeMap κ β'} (h : ∀ k, k ∈ t ↔ k ∈ t') :
    t.size = t'.size := by
  rw [← TreeMap.length_keys, keys_congr h, TreeMap.length_keys]

/-- Erasing the first entry leaves the others in order. -/
theorem toList_erase_of_cons {t : TreeMap κ β} {e : κ × β} {rest : List (κ × β)}
    (h : t.toList = e :: rest) : (t.erase e.1).toList = rest := by
  have hordered : (e :: rest).Pairwise fun a b => compare a.1 b.1 = .lt :=
    h ▸ TreeMap.ordered_keys_toList
  have hnodup : (e :: rest).Nodup := h ▸ nodup_toList t
  have hfirst := (List.pairwise_cons.mp hordered).1
  have hperm : (t.erase e.1).toList.Perm rest := by
    refine (List.perm_ext_iff_of_nodup (nodup_toList _) hnodup.of_cons).mpr ?_
    rintro ⟨k, v⟩
    have hmem : (k, v) ∈ t.toList ↔ (k, v) = e ∨ (k, v) ∈ rest := by rw [h, List.mem_cons]
    rw [TreeMap.mem_toList_iff_getElem?_eq_some] at hmem
    rw [TreeMap.mem_toList_iff_getElem?_eq_some, TreeMap.getElem?_erase]
    by_cases hk : e.1 = k
    · rw [if_pos (by rw [hk, compare_self])]
      constructor
      · intro hnone
        cases hnone
      · intro hrest
        have hlt := hfirst _ hrest
        rw [hk, compare_self] at hlt
        cases hlt
    · rw [if_neg fun hc => hk (Std.compare_eq_iff_eq.mp hc), hmem]
      constructor
      · rintro (rfl | hrest)
        · exact absurd rfl hk
        · exact hrest
      · exact Or.inr
  refine hperm.eq_of_pairwise (fun a b _ _ hab hba => ?_) TreeMap.ordered_keys_toList
    (List.pairwise_cons.mp hordered).2
  rw [OrientedCmp.gt_of_lt hab] at hba
  cases hba
end First

end Grvy.Lib
