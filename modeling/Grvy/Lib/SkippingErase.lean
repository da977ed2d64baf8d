import Mathlib.Data.List.Count
import Mathlib.Data.List.Perm.Subperm

/-!
Erasing a value from a list in a loop that goes on to the next index after an
erasure, although what was next has moved up: it is passed over. So of a value
that stands twice in a row only the first is erased, and every other one is.

Erasing values in turn from a list that has them in front of others leaves the
others as they are, except where one of the others is such a value. Then it stays
only if it comes first and the value in front of it is the last one left.
-/

namespace Grvy.Lib

variable {α : Type} [DecidableEq α]

def eraseSkipping (a : α) : List α → List α
  | [] => []
  | [x] => if x = a then [] else [x]
  | x :: y :: l => if x = a then y :: eraseSkipping a l else x :: eraseSkipping a (y :: l)

/-- Values erased one after the other. -/
def eraseAll (as l : List α) : List α := as.foldl (fun l a => eraseSkipping a l) l

section EraseSkipping

variable {a b : α} {l more : List α}

theorem eraseSkipping_cons_of_ne (hb : b ≠ a) (l : List α) :
    eraseSkipping a (b :: l) = b :: eraseSkipping a l := by
  cases l with
  | nil => exact if_neg hb
  | cons y l => exact if_neg hb

theorem eraseSkipping_of_notMem (h : a ∉ l) : eraseSkipping a l = l := by
  induction l with
  | nil => rfl
  | cons x l ih =>
      have hx : x ≠ a := fun heq => h (heq ▸ List.mem_cons_self)
      rw [eraseSkipping_cons_of_ne hx, ih fun hmem => h (List.mem_cons_of_mem x hmem)]

@[simp] theorem eraseSkipping_cons_self (a y : α) (l : List α) :
    eraseSkipping a (a :: y :: l) = y :: eraseSkipping a l := if_pos rfl

theorem count_eraseSkipping_of_ne (hb : b ≠ a) (l : List α) :
    (eraseSkipping a l).count b = l.count b := by
  fun_induction eraseSkipping a l with
  | case1 => rfl
  | case2 => exact (List.count_cons_of_ne (Ne.symm hb)).symm
  | case3 x hx => rfl
  | case4 y l ih => rw [List.count_cons, ih, List.count_cons_of_ne (Ne.symm hb), List.count_cons]
  | case5 x y l hx ih => rw [List.count_cons, ih, ← List.count_cons]

/-- Every other one is erased at least. -/
theorem two_mul_count_eraseSkipping_le (a : α) (l : List α) :
    2 * (eraseSkipping a l).count a ≤ l.count a := by
  fun_induction eraseSkipping a l with
  | case1 => exact Nat.zero_le _
  | case2 => exact Nat.zero_le _
  | case3 x hx => simp [hx]
  | case4 y l ih =>
      -- the next one is kept, whether it is another `a` or not
      by_cases hy : y = a
      · subst hy
        simp only [List.count_cons_self]
        omega
      · rw [List.count_cons_self, List.count_cons_of_ne hy, List.count_cons_of_ne hy]
        omega
  | case5 x y l hx ih =>
      rw [List.count_cons_of_ne hx, List.count_cons_of_ne hx]
      exact ih

/-- One is erased if there is one. -/
theorem count_eraseSkipping_self_le (a : α) (l : List α) :
    (eraseSkipping a l).count a ≤ l.count a - 1 := by
  have hhalf := two_mul_count_eraseSkipping_le a l
  omega

theorem eraseSkipping_append (h : a ∉ more) (l : List α) :
    eraseSkipping a (l ++ more) = eraseSkipping a l ++ more := by
  fun_induction eraseSkipping a l with
  | case1 => exact eraseSkipping_of_notMem h
  | case2 =>
      cases more with
      | nil => exact if_pos rfl
      | cons y more =>
          have hmore : a ∉ more := fun hmem => h (List.mem_cons_of_mem y hmem)
          rw [List.singleton_append, eraseSkipping_cons_self, eraseSkipping_of_notMem hmore]
          rfl
  | case3 x hx =>
      rw [List.singleton_append, eraseSkipping_cons_of_ne hx, eraseSkipping_of_notMem h]
  | case4 y l ih =>
      simp [ih]
  | case5 x y l hx ih =>
      rw [List.cons_append, eraseSkipping_cons_of_ne hx, ih, List.cons_append]

/-- Another value keeps what is on its two sides apart. -/
theorem eraseSkipping_split (hb : b ≠ a) (l more : List α) :
    eraseSkipping a (l ++ b :: more) = eraseSkipping a l ++ b :: eraseSkipping a more := by
  fun_induction eraseSkipping a l with
  | case1 => exact eraseSkipping_cons_of_ne hb more
  | case2 =>
      rw [List.singleton_append, eraseSkipping_cons_self]
      rfl
  | case3 x hx =>
      rw [List.singleton_append, eraseSkipping_cons_of_ne hx, eraseSkipping_cons_of_ne hb]
      rfl
  | case4 y l ih =>
      rw [List.cons_append, List.cons_append, eraseSkipping_cons_self, ih]
      rfl
  | case5 x y l hx ih =>
      rw [List.cons_append, eraseSkipping_cons_of_ne hx, ih]
      rfl

/-- The first one is erased, and what follows it is passed over. -/
theorem eraseSkipping_first (h : a ∉ l) (y : α) (more : List α) :
    eraseSkipping a (l ++ a :: y :: more) = l ++ y :: eraseSkipping a more := by
  induction l with
  | nil => exact eraseSkipping_cons_self a y more
  | cons x l ih =>
      have hx : x ≠ a := fun heq => h (heq ▸ List.mem_cons_self)
      rw [List.cons_append, eraseSkipping_cons_of_ne hx,
        ih fun hmem => h (List.mem_cons_of_mem x hmem)]
      rfl

end EraseSkipping

/-! ### Erasing several values -/

section EraseAll

variable {a b : α} {as l more : List α}

@[simp] theorem eraseAll_cons (a : α) (as l : List α) :
    eraseAll (a :: as) l = eraseAll as (eraseSkipping a l) := rfl

theorem eraseAll_append (as as' l : List α) :
    eraseAll (as ++ as') l = eraseAll as' (eraseAll as l) := List.foldl_append

theorem count_eraseAll_le (b : α) (as l : List α) :
    (eraseAll as l).count b ≤ l.count b - as.count b := by
  induction as generalizing l with
  | nil => exact Nat.le_refl _
  | cons a as ih =>
      have hrest := ih (eraseSkipping a l)
      rw [eraseAll_cons, List.count_cons]
      by_cases hb : a = b
      · subst hb
        have hone := count_eraseSkipping_self_le a l
        simp only [beq_self_eq_true, if_true]
        omega
      · rw [count_eraseSkipping_of_ne (Ne.symm hb)] at hrest
        simp only [beq_eq_false_iff_ne.mpr hb, Bool.false_eq_true, if_false]
        omega

theorem count_eraseAll_of_notMem (hb : b ∉ as) (l : List α) :
    (eraseAll as l).count b = l.count b := by
  induction as generalizing l with
  | nil => rfl
  | cons a as ih =>
      have hne : b ≠ a := fun heq => hb (heq ▸ List.mem_cons_self)
      simp [ih (fun hmem => hb (List.mem_cons_of_mem a hmem)), count_eraseSkipping_of_ne hne]

theorem mem_of_mem_eraseAll (h : b ∈ eraseAll as l) : b ∈ l := by
  have hle := count_eraseAll_le b as l
  have hpos := List.count_pos_iff.mpr h
  apply List.count_pos_iff.mp
  omega

/-- Values that are all erased often enough leave nothing. -/
theorem eraseAll_eq_nil (h : ∀ b, l.count b ≤ as.count b) : eraseAll as l = [] := by
  apply List.eq_nil_iff_forall_not_mem.mpr
  intro b hb
  have hle := count_eraseAll_le b as l
  have hpos := List.count_pos_iff.mpr hb
  have := h b
  omega

theorem eraseAll_eq_nil_of_subperm (h : l.Subperm as) : eraseAll as l = [] :=
  eraseAll_eq_nil fun b => h.count_le b

theorem eraseAll_keep (h : ∀ a ∈ as, a ∉ more) (l : List α) :
    eraseAll as (l ++ more) = eraseAll as l ++ more := by
  induction as generalizing l with
  | nil => rfl
  | cons a as ih =>
      rw [eraseAll_cons, eraseAll_cons, eraseSkipping_append (h a List.mem_cons_self)]
      exact ih (fun x hx => h x (List.mem_cons_of_mem a hx)) _

theorem eraseAll_of_notMem (h : ∀ a ∈ as, a ∉ l) : eraseAll as l = l := by
  have hnil : eraseAll as ([] : List α) = [] := eraseAll_eq_nil fun b => Nat.zero_le _
  have hkeep := eraseAll_keep h []
  rwa [List.nil_append, hnil] at hkeep

theorem eraseAll_split (hb : b ∉ as) (l more : List α) :
    eraseAll as (l ++ b :: more) = eraseAll as l ++ b :: eraseAll as more := by
  induction as generalizing l more with
  | nil => rfl
  | cons a as ih =>
      have hne : b ≠ a := fun heq => hb (heq ▸ List.mem_cons_self)
      simp [eraseSkipping_split hne, ih fun hmem => hb (List.mem_cons_of_mem a hmem)]

/-- Erased from what stands in front of others, values that the others are not leave just
the others. -/
theorem eraseAll_eq_of_notMem (hperm : as.Perm l) (h : ∀ a ∈ as, a ∉ more) :
    eraseAll as (l ++ more) = more := by
  rw [eraseAll_keep h, eraseAll_eq_nil fun b => Nat.le_of_eq (hperm.count_eq b).symm,
    List.nil_append]

/-- A value may be the first of the others if it stands in front of them once, and when its
turn comes everything behind it has been erased. -/
theorem eraseAll_eq_of_first {before after first last rest : List α}
    (hperm : (first ++ b :: last).Perm (before ++ b :: after))
    (hbefore : b ∉ before) (hafter : b ∉ after)
    (hrest : ∀ a ∈ first ++ b :: last, a ∉ rest)
    (hturn : after.Subperm first) :
    eraseAll (first ++ b :: last) (before ++ b :: after ++ b :: rest) = b :: rest := by
  have hcount : ∀ a, first.count a + last.count a = before.count a + after.count a := by
    intro a
    have h := hperm.count_eq a
    simp only [List.count_append, List.count_cons] at h
    omega
  have hfirst : b ∉ first := by
    rw [← List.count_eq_zero]
    have h := hcount b
    rw [List.count_eq_zero.mpr hbefore, List.count_eq_zero.mpr hafter] at h
    omega
  have hlast : b ∉ last := by
    rw [← List.count_eq_zero]
    have h := hcount b
    rw [List.count_eq_zero.mpr hbefore, List.count_eq_zero.mpr hafter] at h
    omega
  have hleft : b ∉ eraseAll first before := by
    rw [← List.count_eq_zero, count_eraseAll_of_notMem hfirst, List.count_eq_zero]
    exact hbefore
  have hrest_first : ∀ a ∈ first, a ∉ rest := fun a ha =>
    hrest a (List.mem_append_left _ ha)
  have hrest_last : ∀ a ∈ last, a ∉ b :: rest := by
    intro a ha hmem
    rcases List.mem_cons.mp hmem with rfl | hmem
    · exact hlast ha
    · exact hrest a (List.mem_append_right _ (List.mem_cons_of_mem b ha)) hmem
  have hbrest : b ∉ rest := hrest b (List.mem_append_right _ List.mem_cons_self)
  -- until its turn the value keeps the three parts of the list apart
  rw [eraseAll_append, List.append_assoc, List.cons_append, eraseAll_split hfirst,
    eraseAll_split hfirst, eraseAll_eq_nil hturn.count_le, List.nil_append, eraseAll_cons,
    eraseSkipping_first hleft, eraseAll_of_notMem hrest_first, eraseSkipping_of_notMem hbrest,
    eraseAll_keep hrest_last, ← eraseAll_append, eraseAll_eq_nil, List.nil_append]
  intro a
  have h := hcount a
  rw [List.count_append]
  omega

/-! ### What it takes to keep the others -/

/-- Whatever stands in front of the others is erased. -/
theorem mem_of_eraseAll_eq (h : eraseAll as (l ++ more) = more) (hb : b ∈ l) : b ∈ as := by
  by_contra hnot
  have hcount := count_eraseAll_of_notMem hnot (l ++ more)
  rw [h, List.count_append] at hcount
  have hpos := List.count_pos_iff.mpr hb
  omega

/-- If one of two is left, nothing was between them. -/
theorem eq_nil_of_count_eraseSkipping {front middle rest : List α} (hfront : b ∉ front)
    (hmiddle : b ∉ middle) (hrest : b ∉ rest)
    (h : 1 ≤ (eraseSkipping b (front ++ b :: (middle ++ b :: rest))).count b) : middle = [] := by
  cases middle with
  | nil => rfl
  | cons y middle =>
      exfalso
      have hhalf := two_mul_count_eraseSkipping_le b (middle ++ b :: rest)
      have hy : y ≠ b := fun heq => hmiddle (heq ▸ List.mem_cons_self)
      have hmiddle' : b ∉ middle := fun hmem => hmiddle (List.mem_cons_of_mem y hmem)
      rw [List.cons_append, eraseSkipping_first hfront, List.count_append,
        List.count_cons_of_ne hy, List.count_eq_zero.mpr hfront] at h
      rw [List.count_append, List.count_cons_self, List.count_eq_zero.mpr hmiddle',
        List.count_eq_zero.mpr hrest] at hhalf
      omega

/-- A value that is among the others as well is there once and was in front of them once: when
it is first erased one at most is left of two, and of more than two too many are erased. -/
theorem count_eq_one_of_eraseAll_eq (hperm : as.Perm l) (h : eraseAll as (l ++ more) = more)
    (hb : b ∈ l) (hmore : b ∈ more) : l.count b = 1 ∧ more.count b = 1 := by
  obtain ⟨first, last, rfl, hnot⟩ := List.eq_append_cons_of_mem (hperm.mem_iff.mpr hb)
  have hcount := hperm.count_eq b
  rw [List.count_append, List.count_cons_self, List.count_eq_zero.mpr hnot] at hcount
  have hpos := List.count_pos_iff.mpr hmore
  rw [eraseAll_append, eraseAll_cons] at h
  have hfirst := count_eraseAll_le b first (l ++ more)
  have hturn := two_mul_count_eraseSkipping_le b (eraseAll first (l ++ more))
  have hlast := count_eraseAll_le b last (eraseSkipping b (eraseAll first (l ++ more)))
  rw [h] at hlast
  rw [List.count_append] at hfirst
  -- of `n` at the first turn at most `n / 2` are left, and all but one would have to be
  omega

section Kept

variable {before after first last rest : List α}

/-- A value that is among the others as well is nowhere else, and nothing is left between the
two when its turn comes. -/
theorem between_eq_nil (front : List α) (hperm : (first ++ b :: last).Perm (before ++ b :: after))
    (h : eraseAll (first ++ b :: last) (before ++ b :: after ++ (front ++ b :: rest)) =
      front ++ b :: rest) :
    b ∉ before ++ after ∧ b ∉ first ++ last ∧ b ∉ front ++ rest ∧
      eraseAll first (after ++ front) = [] := by
  have hone := count_eq_one_of_eraseAll_eq hperm h
    (List.mem_append_right before List.mem_cons_self)
    (List.mem_append_right front List.mem_cons_self)
  have hcount := hperm.count_eq b
  have hl : (before ++ after).count b = 0 := by
    have hone := hone.1
    rw [List.count_append, List.count_cons_self] at hone
    rw [List.count_append]
    omega
  have has : (first ++ last).count b = 0 := by
    rw [hone.1, List.count_append, List.count_cons_self] at hcount
    rw [List.count_append]
    omega
  have hmore : (front ++ rest).count b = 0 := by
    have hone := hone.2
    rw [List.count_append, List.count_cons_self] at hone
    rw [List.count_append]
    omega
  rw [List.count_eq_zero] at hl has hmore
  refine ⟨hl, has, hmore, ?_⟩
  rw [List.mem_append, not_or] at hl has hmore
  have hlist : before ++ b :: after ++ (front ++ b :: rest) =
      before ++ b :: (after ++ front ++ b :: rest) := by simp
  -- up to the turn of `b` what is between the two is erased by itself
  rw [hlist, eraseAll_append, eraseAll_split has.1, eraseAll_split has.1, eraseAll_cons] at h
  have hleft : b ∉ eraseAll first before := fun hmem => hl.1 (mem_of_mem_eraseAll hmem)
  have hright : b ∉ eraseAll first rest := fun hmem => hmore.2 (mem_of_mem_eraseAll hmem)
  refine eq_nil_of_count_eraseSkipping hleft ?_ hright ?_
  · intro hmem
    rcases List.mem_append.mp (mem_of_mem_eraseAll hmem) with hmem | hmem
    · exact hl.2 hmem
    · exact hmore.1 hmem
  · rw [← count_eraseAll_of_notMem has.2, h]
    exact List.count_pos_iff.mpr (List.mem_append_right front List.mem_cons_self)

/-- Of the others only the first can be such a value: to bring one behind it next to the
value in front, the first would have to be erased, and then it would be gone. -/
theorem notMem_rest_of_eraseAll_eq {t : α} (hperm : as.Perm l)
    (h : eraseAll as (l ++ t :: rest) = t :: rest) (hb : b ∈ l) : b ∉ rest := by
  intro hmem
  obtain ⟨front, rest', rfl⟩ := List.append_of_mem hmem
  obtain ⟨before, after, rfl⟩ := List.append_of_mem hb
  obtain ⟨first, last, rfl⟩ := List.append_of_mem (hperm.mem_iff.mpr hb)
  obtain ⟨-, has, hmore, hnil⟩ := between_eq_nil (t :: front) hperm h
  have hbt : b ≠ t := fun heq => hmore (heq ▸ List.mem_append_left rest' List.mem_cons_self)
  rw [List.mem_append, not_or] at has
  have hfirst : t ∈ first := by
    by_contra hnot
    have hcount := count_eraseAll_of_notMem hnot (after ++ t :: front)
    rw [hnil, List.count_nil] at hcount
    exact List.count_eq_zero.mp hcount.symm (List.mem_append_right _ List.mem_cons_self)
  -- at the turn of `b` there is no `t` any more
  obtain ⟨hone, hrest⟩ := count_eq_one_of_eraseAll_eq hperm h
    (hperm.mem_iff.mp (List.mem_append_left _ hfirst)) List.mem_cons_self
  have hlist : before ++ b :: after ++ t :: (front ++ b :: rest') =
      before ++ b :: (after ++ t :: front ++ b :: rest') := by simp
  rw [hlist, eraseAll_append, eraseAll_split has.1, eraseAll_split has.1, hnil] at h
  have hcount := count_eraseAll_le t (b :: last)
    (eraseAll first before ++ b :: ([] ++ b :: eraseAll first rest'))
  rw [h] at hcount
  have hbefore := count_eraseAll_le t first before
  have hafter := count_eraseAll_le t first rest'
  have hpos := List.count_pos_iff.mpr hfirst
  simp only [List.count_append, List.count_cons_self, List.count_cons_of_ne hbt,
    List.nil_append] at hcount hone hrest
  omega

/-- The first of the others can only be such a value if everything behind it has had its
turn before. -/
theorem mem_first_of_eraseAll_eq
    (hperm : (first ++ b :: last).Perm (before ++ b :: after))
    (h : eraseAll (first ++ b :: last) (before ++ b :: after ++ b :: rest) = b :: rest) :
    ∀ a ∈ after, a ∈ first := by
  intro a ha
  by_contra hnot
  obtain ⟨-, -, -, hnil⟩ := between_eq_nil [] hperm h
  have hcount := count_eraseAll_of_notMem hnot (after ++ [])
  rw [hnil, List.append_nil, List.count_nil] at hcount
  exact List.count_eq_zero.mp hcount.symm ha

end Kept

end EraseAll

end Grvy.Lib
