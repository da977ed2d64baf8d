import Mathlib.Data.List.Infix
import Mathlib.Data.List.Nodup
import Mathlib.Logic.Function.Basic

/-!
A tree of files: directories and files at locations, a location being the names
on the way to it from the root. Whatever exists has a directory above it.

A path is a list of steps. It is walked one step after the other, and each step
is taken from a directory, so that a step up undoes the step before it only where
that step led to a directory. Links and modes are left out.
-/

namespace Grvy.Lib

/-- What is at a location. -/
inductive Entry (C : Type) where
  | dir
  | file (content : C)
  deriving DecidableEq

structure FileTree (α C : Type) where
  entry : List α → Option (Entry C)
  locs : List (List α)
  nodup_locs : locs.Nodup
  mem_locs : ∀ loc, loc ∈ locs ↔ entry loc ≠ none
  root : entry [] = some .dir
  parent : ∀ loc a, entry (loc ++ [a]) ≠ none → entry loc = some .dir

/-- One step of a path. -/
inductive Step (α : Type) where
  | stay
  | up
  | down (a : α)

variable {α C : Type}

/-- Where a step leads, from a directory. Above the root is the root. -/
def Step.apply (loc : List α) : Step α → List α
  | .stay => loc
  | .up => loc.dropLast
  | .down a => loc ++ [a]

namespace FileTree

def isDir (t : FileTree α C) (loc : List α) : Bool :=
  match t.entry loc with
  | some .dir => true
  | _ => false

/-- The location a path leads to, whether or not something is there. -/
def walk (t : FileTree α C) : List α → List (Step α) → Option (List α)
  | loc, [] => some loc
  | loc, step :: steps => if t.isDir loc then t.walk (step.apply loc) steps else none

theorem isDir_iff {t : FileTree α C} {loc : List α} :
    t.isDir loc = true ↔ t.entry loc = some .dir := by
  rw [isDir]
  split
  · next h => simp [h]
  · next h => exact ⟨nofun, fun hdir => absurd hdir h⟩

/-- Everything above what exists is a directory. -/
theorem isDir_of_below {t : FileTree α C} {loc below : List α} (hne : below ≠ [])
    (h : t.entry (loc ++ below) ≠ none) : t.isDir loc = true := by
  induction below using List.reverseRecOn with
  | nil => exact absurd rfl hne
  | append_singleton below a ih =>
      rw [← List.append_assoc] at h
      have hdir := t.parent _ _ h
      by_cases hbelow : below = []
      · rw [hbelow, List.append_nil] at hdir
        exact isDir_iff.mpr hdir
      · exact ih hbelow (by rw [hdir]; exact Option.some_ne_none _)

/-- What is on the way to what exists does, too. -/
theorem entry_child_of_below {t : FileTree α C} {loc below : List α} {a : α}
    (h : t.entry (loc ++ a :: below) ≠ none) : t.entry (loc ++ [a]) ≠ none := by
  by_cases hbelow : below = []
  · rwa [hbelow] at h
  · have hdir : t.isDir (loc ++ [a]) = true := by
      refine isDir_of_below hbelow ?_
      rwa [List.append_assoc]
    rw [isDir_iff.mp hdir]
    exact Option.some_ne_none _

theorem isDir_of_isDir_append {t : FileTree α C} {loc below : List α}
    (h : t.isDir (loc ++ below) = true) : t.isDir loc = true := by
  by_cases hne : below = []
  · rwa [hne, List.append_nil] at h
  · exact isDir_of_below hne (by rw [isDir_iff.mp h]; exact Option.some_ne_none _)

theorem isDir_of_prefix {t : FileTree α C} {loc loc' : List α} (hle : loc <+: loc')
    (h : t.isDir loc' = true) : t.isDir loc = true := by
  obtain ⟨below, rfl⟩ := hle
  exact isDir_of_isDir_append h

/-! ### Walking -/

theorem walk_append (t : FileTree α C) (loc : List α) (steps more : List (Step α)) :
    t.walk loc (steps ++ more) = (t.walk loc steps).bind fun loc' => t.walk loc' more := by
  induction steps generalizing loc with
  | nil => rfl
  | cons step steps ih =>
      rw [List.cons_append, walk, walk]
      split
      · exact ih _
      · rfl

/-- A walk down succeeds if it ends in a directory or just below one. -/
theorem walk_names (t : FileTree α C) (loc names : List α) (a : α) :
    t.walk loc ((names ++ [a]).map .down) =
      if t.isDir (loc ++ names) then some (loc ++ names ++ [a]) else none := by
  induction names generalizing loc with
  | nil =>
      rw [List.append_nil]
      rfl
  | cons b names ih =>
      have happend : loc ++ b :: names = loc ++ [b] ++ names := by simp
      rw [List.cons_append, List.map_cons, walk, Step.apply, ih, ← happend]
      by_cases hdir : t.isDir (loc ++ b :: names) = true
      · rw [if_pos hdir, if_pos (isDir_of_isDir_append hdir)]
      · rw [if_neg hdir, ite_self]

/-- A walk down ends at the names it goes down. -/
theorem walk_names_eq {t : FileTree α C} {loc loc' names : List α}
    (h : t.walk loc (names.map .down) = some loc') : loc' = loc ++ names := by
  cases names using List.reverseRecOn with
  | nil =>
      rw [List.append_nil]
      exact (Option.some.inj h).symm
  | append_singleton names a =>
      rw [walk_names] at h
      split at h
      · rw [← Option.some.inj h, List.append_assoc]
      · cases h

theorem walk_names_of_isDir {t : FileTree α C} {loc names : List α}
    (h : t.isDir (loc ++ names) = true) : t.walk loc (names.map .down) = some (loc ++ names) := by
  cases names using List.reverseRecOn with
  | nil =>
      rw [List.append_nil]
      rfl
  | append_singleton names a =>
      rw [← List.append_assoc] at h ⊢
      rw [walk_names, if_pos (isDir_of_isDir_append h)]

/-- What a walk down finds is what is at the location. -/
theorem entry_walk_names (t : FileTree α C) (loc names : List α) :
    (t.walk loc (names.map .down)).bind t.entry = t.entry (loc ++ names) := by
  induction names using List.reverseRecOn with
  | nil =>
      rw [List.append_nil]
      rfl
  | append_singleton names a _ =>
      rw [walk_names, ← List.append_assoc]
      by_cases hdir : t.isDir (loc ++ names) = true
      · rw [if_pos hdir]
        rfl
      · rw [if_neg hdir]
        by_contra hne
        exact hdir (isDir_iff.mpr (t.parent _ a (Ne.symm hne)))

/-- A walk ends at something, or at a free place of a directory. -/
theorem isDir_dropLast_of_walk {t : FileTree α C} {loc loc' : List α} {steps : List (Step α)}
    (hstart : t.entry loc ≠ none) (h : t.walk loc steps = some loc') (hfree : t.entry loc' = none) :
    t.isDir loc'.dropLast = true := by
  induction steps using List.reverseRecOn with
  | nil =>
      cases h
      exact absurd hfree hstart
  | append_singleton steps step _ =>
      rw [walk_append] at h
      obtain ⟨mid, -, hlast⟩ := Option.bind_eq_some_iff.mp h
      rw [walk] at hlast
      split at hlast
      · next hdir =>
          obtain rfl := Option.some.inj hlast
          cases step with
          | stay => exact absurd (hfree.symm.trans (isDir_iff.mp hdir)) nofun
          | up =>
              have habove : t.isDir mid.dropLast = true :=
                isDir_of_prefix (List.dropLast_prefix mid) hdir
              exact absurd (hfree.symm.trans (isDir_iff.mp habove)) nofun
          | down a => rwa [Step.apply, List.dropLast_concat]
      · cases hlast

/-! ### Creating -/

/-- A new entry in an existing directory. -/
def create [DecidableEq α] (t : FileTree α C) (loc : List α) (e : Entry C) :
    Option (FileTree α C) :=
  if h : t.isDir loc.dropLast = true ∧ t.entry loc = none then
    some
      { entry := Function.update t.entry loc (some e)
        locs := loc :: t.locs
        nodup_locs := List.nodup_cons.mpr ⟨fun hmem => (t.mem_locs loc).mp hmem h.2, t.nodup_locs⟩
        mem_locs := by
          intro loc'
          rw [List.mem_cons, t.mem_locs, Function.update_apply]
          by_cases heq : loc' = loc
          · simp [heq]
          · simp [heq]
        root := by
          rw [Function.update_of_ne, t.root]
          rintro rfl
          exact absurd (h.2.symm.trans t.root) nofun
        parent := by
          intro loc' a hne
          have hdir : t.entry loc' = some .dir := by
            rw [Function.update_apply] at hne
            split at hne
            · next heq =>
                rw [← heq, List.dropLast_concat] at h
                exact isDir_iff.mp h.1
            · exact t.parent loc' a hne
          rw [Function.update_of_ne, hdir]
          rintro rfl
          exact absurd (h.2.symm.trans hdir) nofun }
  else none

/-- Everything that is in the first tree is in the second. -/
def Extends (t t' : FileTree α C) : Prop := ∀ loc e, t.entry loc = some e → t'.entry loc = some e

theorem Extends.refl (t : FileTree α C) : t.Extends t := fun _ _ h => h

theorem Extends.trans {t₁ t₂ t₃ : FileTree α C} (h : t₁.Extends t₂) (h' : t₂.Extends t₃) :
    t₁.Extends t₃ := fun loc e he => h' loc e (h loc e he)

theorem Extends.isDir {t t' : FileTree α C} (h : t.Extends t') {loc : List α}
    (hdir : t.isDir loc = true) : t'.isDir loc = true :=
  isDir_iff.mpr (h loc .dir (isDir_iff.mp hdir))

theorem Extends.entry_ne_none {t t' : FileTree α C} (h : t.Extends t') {loc : List α}
    (hne : t.entry loc ≠ none) : t'.entry loc ≠ none := by
  obtain ⟨e, he⟩ := Option.ne_none_iff_exists'.mp hne
  rw [h loc e he]
  exact Option.some_ne_none e

theorem Extends.walk {t t' : FileTree α C} (h : t.Extends t') {loc loc' : List α}
    {steps : List (Step α)} (hwalk : t.walk loc steps = some loc') :
    t'.walk loc steps = some loc' := by
  induction steps generalizing loc with
  | nil => exact hwalk
  | cons step steps ih =>
      rw [FileTree.walk] at hwalk
      split at hwalk
      · next hdir =>
          rw [FileTree.walk, if_pos (h.isDir hdir)]
          exact ih hwalk
      · cases hwalk

section Create

variable [DecidableEq α] {t t' : FileTree α C} {loc : List α} {e : Entry C}

theorem create_eq_none_iff :
    t.create loc e = none ↔ ¬ (t.isDir loc.dropLast = true ∧ t.entry loc = none) := by
  rw [create]
  split
  · next h => exact ⟨nofun, fun hnot => absurd h hnot⟩
  · next h => exact ⟨fun _ => h, fun _ => rfl⟩

theorem entry_create (h : t.create loc e = some t') :
    t'.entry = Function.update t.entry loc (some e) := by
  rw [create] at h
  split at h
  · rw [← Option.some.inj h]
  · cases h

theorem free_of_create (h : t.create loc e = some t') : t.entry loc = none := by
  rw [create] at h
  split at h
  · next hfree => exact hfree.2
  · cases h

theorem entry_create_self (h : t.create loc e = some t') : t'.entry loc = some e := by
  rw [entry_create h, Function.update_self]

theorem entry_create_of_ne (h : t.create loc e = some t') {loc' : List α} (hne : loc' ≠ loc) :
    t'.entry loc' = t.entry loc' := by
  rw [entry_create h, Function.update_of_ne hne]

theorem extends_create (h : t.create loc e = some t') : t.Extends t' := by
  intro loc' e' he
  rw [entry_create_of_ne h, he]
  rintro rfl
  exact absurd ((free_of_create h).symm.trans he) nofun

end Create

/-- A free place that a walk down leads to can be created, and no other one. -/
theorem create_walk_names [DecidableEq α] (t : FileTree α C) (loc names : List α) (e : Entry C) :
    ((t.walk loc (names.map .down)).bind fun loc' => t.create loc' e) =
      t.create (loc ++ names) e := by
  cases names using List.reverseRecOn with
  | nil =>
      rw [List.append_nil]
      rfl
  | append_singleton names a =>
      rw [walk_names, ← List.append_assoc]
      by_cases hdir : t.isDir (loc ++ names) = true
      · rw [if_pos hdir]
        rfl
      · rw [if_neg hdir, Option.bind_none, eq_comm, create_eq_none_iff, List.dropLast_concat]
        exact fun h => hdir h.1

/-! ### Building a tree -/

/-- A root with nothing in it. -/
def rootOnly [DecidableEq α] : FileTree α C where
  entry := fun loc => if loc = [] then some .dir else none
  locs := [[]]
  nodup_locs := List.nodup_singleton []
  mem_locs := by
    intro loc
    rw [List.mem_singleton]
    by_cases h : loc = []
    · simp [h]
    · simp [h]
  root := if_pos rfl
  parent := by
    intro loc a h
    rw [if_neg (List.append_ne_nil_of_right_ne_nil loc (List.cons_ne_nil a []))] at h
    exact absurd rfl h

/-- The tree with some entries, as far as they are in directories. -/
def build [DecidableEq α] (entries : List (List α × Entry C)) : FileTree α C :=
  entries.foldl (fun t e => (t.create e.1 e.2).getD t) rootOnly

/-! ### Listing a directory -/

section Children

variable [DecidableEq α]

def children (t : FileTree α C) (loc : List α) : List α :=
  t.locs.filterMap fun l => if l.dropLast = loc then l.getLast? else none

theorem mem_children {t : FileTree α C} {loc : List α} {a : α} :
    a ∈ t.children loc ↔ t.entry (loc ++ [a]) ≠ none := by
  rw [children, List.mem_filterMap, ← t.mem_locs]
  constructor
  · rintro ⟨l, hl, hlast⟩
    split at hlast
    · next hdrop => rwa [← hdrop, List.dropLast_append_getLast? a hlast]
    · cases hlast
  · intro hmem
    exact ⟨loc ++ [a], hmem, by simp⟩

/-- Nothing is below a location that has no children. -/
theorem entry_below_of_children_nil {t : FileTree α C} {loc below : List α}
    (h : t.children loc = []) (hbelow : below ≠ []) : t.entry (loc ++ below) = none := by
  obtain ⟨a, rest, rfl⟩ := List.exists_cons_of_ne_nil hbelow
  by_contra hne
  have hmem := mem_children.mpr (entry_child_of_below hne)
  rw [h] at hmem
  cases hmem

end Children

/-! ### Removing -/

/-- The tree without a location and what is below it. The root stays. -/
def remove [DecidableEq α] (t : FileTree α C) (loc : List α) : FileTree α C :=
  if hroot : loc = [] then t
  else
    { entry := fun l => if loc <+: l then none else t.entry l
      locs := t.locs.filter fun l => ¬ loc <+: l
      nodup_locs := t.nodup_locs.filter _
      mem_locs := by
        intro l
        rw [List.mem_filter, t.mem_locs]
        by_cases hbelow : loc <+: l
        · simp [hbelow]
        · simp [hbelow]
      root := by
        rw [if_neg, t.root]
        rwa [List.prefix_nil]
      parent := by
        intro l a hne
        by_cases hbelow : loc <+: l ++ [a]
        · rw [if_pos hbelow] at hne
          exact absurd rfl hne
        · rw [if_neg hbelow] at hne
          rw [if_neg fun hl => hbelow (hl.trans (List.prefix_append l [a])), t.parent l a hne] }

theorem entry_remove [DecidableEq α] (t : FileTree α C) {loc : List α} (hroot : loc ≠ [])
    (l : List α) : (t.remove loc).entry l = if loc <+: l then none else t.entry l := by
  rw [remove, dif_neg hroot]

section Remove

variable [DecidableEq α] {t t' : FileTree α C} {loc : List α}

theorem entry_remove_below (t : FileTree α C) (hroot : loc ≠ []) (below : List α) :
    (t.remove loc).entry (loc ++ below) = none := by
  rw [entry_remove t hroot, if_pos (List.prefix_append loc below)]

theorem entry_remove_of_not_below (t : FileTree α C) {l : List α} (hl : ¬ loc <+: l) :
    (t.remove loc).entry l = t.entry l := by
  have hroot : loc ≠ [] := by
    rintro rfl
    exact hl List.nil_prefix
  rw [entry_remove t hroot, if_neg hl]

/-- Removing makes nothing new. -/
theorem entry_remove_eq_none (loc : List α) {l : List α} (h : t.entry l = none) :
    (t.remove loc).entry l = none := by
  by_cases hroot : loc = []
  · rwa [remove, dif_pos hroot]
  · rw [entry_remove t hroot, h, ite_self]

theorem Extends.remove (h : t.Extends t') (loc : List α) :
    (t.remove loc).Extends (t'.remove loc) := by
  by_cases hroot : loc = []
  · rw [FileTree.remove, FileTree.remove, dif_pos hroot, dif_pos hroot]
    exact h
  · intro l e he
    rw [entry_remove t hroot] at he
    rw [entry_remove t' hroot]
    split at he
    · cases he
    · next hl => rw [if_neg hl, h l e he]

/-- What was there before a location was taken stays when the location is removed. -/
theorem Extends.remove_new (h : t.Extends t') (hfree : t.entry loc = none) :
    t.Extends (t'.remove loc) := by
  intro l e he
  have hl : ¬ loc <+: l := by
    rintro ⟨below, rfl⟩
    by_cases hbelow : below = []
    · rw [hbelow, List.append_nil, hfree] at he
      cases he
    · have hdir := isDir_of_below hbelow (by rw [he]; exact Option.some_ne_none e)
      rw [isDir_iff, hfree] at hdir
      cases hdir
  rw [entry_remove_of_not_below t' hl, h l e he]

end Remove

end FileTree

end Grvy.Lib
