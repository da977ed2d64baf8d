import Grvy.Lib.FileTree

/-!
Copying what is below one directory into another, entry by entry, while walking the
source. A directory is listed when the walk enters it, which is after it has been
copied, so the walk also meets what the copying itself has put there.

The target starts empty. If it is below the source, the walk never gets to the end:
there is always an entry pending on the way to the target's own copy of what has
been visited. Otherwise the source keeps still, the walk ends, and what is below
the target is then exactly what is below the source.
-/

namespace Grvy.Lib

/-- What goes wrong with single entries: making the copy, and finishing the copy of a
directory. -/
structure CopyFaults (α : Type) where
  making : List α → Bool
  finishing : List α → Bool

/-- The order in which the names in a directory are listed. -/
structure Listing (α C : Type) [DecidableEq α] where
  names : FileTree α C → List α → List α
  perm : ∀ t loc, (names t loc).Perm (t.children loc)

variable {α C : Type}

def Entry.isDir : Entry C → Bool
  | .dir => true
  | .file _ => false

namespace CopyFaults

/-- Something goes wrong with a copy of this entry. -/
def hits (faults : CopyFaults α) (rel : List α) (e : Entry C) : Bool :=
  faults.making rel || (e.isDir && faults.finishing rel)

end CopyFaults

variable [DecidableEq α]

/-- Names are listed in the order in which they are kept. -/
def Listing.plain : Listing α C where
  names := FileTree.children
  perm := fun _ _ => List.Perm.refl _

theorem Listing.mem_names {listing : Listing α C} {t : FileTree α C} {loc : List α} {a : α} :
    a ∈ listing.names t loc ↔ t.entry (loc ++ [a]) ≠ none := by
  rw [(listing.perm t loc).mem_iff, FileTree.mem_children]

namespace FileTree

section Walk

variable (listing : Listing α C) (faults : CopyFaults α) (source target : List α)

/-- Copy the entry at one place below the source. -/
def copyOne (t : FileTree α C) (rel : List α) : Except (FileTree α C) (FileTree α C) :=
  if (t.entry (target ++ rel)).isSome then .ok t
  else if faults.making rel then .error t
  else
    match t.entry (source ++ rel) with
    | none => .error t
    | some e =>
        match t.create (target ++ rel) e with
        | none => .error t
        | some t' => if e.isDir && faults.finishing rel then .error t' else .ok t'

/-- What the walk meets in a place it enters. -/
def entered (t : FileTree α C) (rel : List α) : List (List α) :=
  if t.isDir (source ++ rel) then (listing.names t (source ++ rel)).map fun a => rel ++ [a]
  else []

/-- The walk over what is pending, for a number of entries at most. -/
def copyAll : ℕ → List (List α) → FileTree α C → Option (Except (FileTree α C) (FileTree α C))
  | _, [], t => some (.ok t)
  | 0, _ :: _, _ => none
  | fuel + 1, rel :: pending, t =>
      match copyOne faults source target t rel with
      | .error t' => some (.error t')
      | .ok t' => copyAll fuel (entered listing source t' rel ++ pending) t'

end Walk

variable {listing : Listing α C} {faults : CopyFaults α} {source target : List α}
  {t t' : FileTree α C} {rel : List α} {pending : List (List α)}

/-! ### One entry -/

theorem copyOne_ok (h : copyOne faults source target t rel = .ok t') :
    (t' = t ∧ t.entry (target ++ rel) ≠ none) ∨
      ∃ e, t.entry (source ++ rel) = some e ∧ t.create (target ++ rel) e = some t' ∧
        faults.hits rel e = false := by
  rw [copyOne] at h
  split at h
  · next hsome => exact .inl ⟨(Except.ok.inj h).symm, Option.isSome_iff_ne_none.mp hsome⟩
  · split at h
    · cases h
    · next hmaking =>
        split at h
        · cases h
        · next e he =>
            split at h
            · cases h
            · next t₁ hcreate =>
                split at h
                · cases h
                · next hfinishing =>
                    obtain rfl := Except.ok.inj h
                    refine .inr ⟨e, he, hcreate, ?_⟩
                    simp only [CopyFaults.hits, Bool.or_eq_false_iff]
                    exact ⟨(Bool.not_eq_true _).mp hmaking, (Bool.not_eq_true _).mp hfinishing⟩

theorem copyOne_error (h : copyOne faults source target t rel = .error t') :
    t.entry (target ++ rel) = none ∧
      ∀ e, t.entry (source ++ rel) = some e → t.create (target ++ rel) e ≠ none →
        faults.hits rel e = true := by
  rw [copyOne] at h
  split at h
  · cases h
  · next hsome =>
      refine ⟨Option.not_isSome_iff_eq_none.mp hsome, fun e he hcreate => ?_⟩
      split at h
      · next hmaking => simp [CopyFaults.hits, hmaking]
      · rw [he] at h
        dsimp only at h
        split at h
        · next hnone => exact absurd hnone hcreate
        · split at h
          · next hfinishing => simp only [CopyFaults.hits, hfinishing, Bool.or_true]
          · cases h

theorem extends_copyOne (h : copyOne faults source target t rel = .ok t') : t.Extends t' := by
  obtain ⟨rfl, -⟩ | ⟨e, -, hcreate, -⟩ := copyOne_ok h
  · exact Extends.refl t'
  · exact extends_create hcreate

theorem copied_of_copyOne (h : copyOne faults source target t rel = .ok t') :
    t'.entry (target ++ rel) ≠ none := by
  obtain ⟨rfl, hne⟩ | ⟨e, -, hcreate, -⟩ := copyOne_ok h
  · exact hne
  · rw [entry_create_self hcreate]
    exact Option.some_ne_none e

/-- Only the place of the copy changes. -/
theorem entry_copyOne_of_ne (h : copyOne faults source target t rel = .ok t') {loc : List α}
    (hne : loc ≠ target ++ rel) : t'.entry loc = t.entry loc := by
  obtain ⟨rfl, -⟩ | ⟨e, -, hcreate, -⟩ := copyOne_ok h
  · rfl
  · exact entry_create_of_ne hcreate hne

theorem mem_entered {p : List α} :
    p ∈ entered listing source t rel ↔
      ∃ a, p = rel ++ [a] ∧ t.entry (source ++ (rel ++ [a])) ≠ none := by
  rw [entered]
  split
  · rw [List.mem_map]
    constructor
    · rintro ⟨a, ha, rfl⟩
      rw [Listing.mem_names, List.append_assoc] at ha
      exact ⟨a, rfl, ha⟩
    · rintro ⟨a, rfl, ha⟩
      exact ⟨a, Listing.mem_names.mpr (by rwa [List.append_assoc]), rfl⟩
  · next hdir =>
      refine ⟨nofun, ?_⟩
      rintro ⟨a, -, ha⟩
      rw [← List.append_assoc] at ha
      exact absurd (isDir_iff.mpr (t.parent _ a ha)) hdir

/-! ### The whole walk -/

/-- What holds of the tree and what is pending, and is kept by every copy, holds when the
walk is over, or when the copy that failed was begun. -/
theorem copyAll_induction {P : FileTree α C → List (List α) → Prop}
    (hstep : ∀ t t' rel pending, P t (rel :: pending) →
      copyOne faults source target t rel = .ok t' →
      P t' (entered listing source t' rel ++ pending))
    {fuel : ℕ} (h : P t pending) {r : Except (FileTree α C) (FileTree α C)}
    (hrun : copyAll listing faults source target fuel pending t = some r) :
    (∃ t', r = .ok t' ∧ P t' []) ∨
      ∃ t₁ rel rest t', r = .error t' ∧ P t₁ (rel :: rest) ∧
        copyOne faults source target t₁ rel = .error t' := by
  induction fuel generalizing t pending with
  | zero =>
      cases pending with
      -- nothing is pending, so the walk is over, with or without fuel
      | nil => exact .inl ⟨t, (Option.some.inj hrun).symm, h⟩
      | cons rel pending => cases hrun
  | succ fuel ih =>
      cases pending with
      | nil => exact .inl ⟨t, (Option.some.inj hrun).symm, h⟩
      | cons rel pending =>
          -- one copy, then the walk with what is pending after it
          rw [copyAll] at hrun
          split at hrun
          · next t' hone =>
              exact .inr ⟨t, rel, pending, t', (Option.some.inj hrun).symm, h, hone⟩
          · next t' hone => exact ih (hstep t t' rel pending h hone) hrun

/-- What is below the target mirrors the source, and for every pending entry the
directory that its copy belongs to is there. -/
structure Mirroring (faults : CopyFaults α) (source target : List α) (t : FileTree α C)
    (pending : List (List α)) : Prop where
  mirrors : ∀ rel e, t.entry (target ++ rel) = some e → t.entry (source ++ rel) = some e
  sound : ∀ rel e, rel ≠ [] → t.entry (target ++ rel) = some e → faults.hits rel e = false
  ne_nil : ∀ p ∈ pending, p ≠ []
  exists_source : ∀ p ∈ pending, t.entry (source ++ p) ≠ none
  isDir_target : ∀ p ∈ pending, t.isDir (target ++ p.dropLast) = true

theorem Mirroring.mirrors_copyOne (h : Mirroring faults source target t (rel :: pending))
    (hone : copyOne faults source target t rel = .ok t') (r : List α) (e : Entry C)
    (he : t'.entry (target ++ r) = some e) : t'.entry (source ++ r) = some e := by
  by_cases hr : r = rel
  · rw [hr] at he ⊢
    obtain ⟨rfl, -⟩ | ⟨e', hsource, hcreate, -⟩ := copyOne_ok hone
    · exact h.mirrors rel e he
    · rw [entry_create_self hcreate] at he
      rw [← he]
      exact extends_create hcreate _ _ hsource
  · rw [entry_copyOne_of_ne hone (fun heq => hr (List.append_cancel_left heq))] at he
    exact extends_copyOne hone _ _ (h.mirrors r e he)

theorem Mirroring.step (h : Mirroring faults source target t (rel :: pending))
    (hone : copyOne faults source target t rel = .ok t') :
    Mirroring faults source target t' (entered listing source t' rel ++ pending) where
  mirrors := h.mirrors_copyOne hone
  sound := by
    intro r e hr he
    by_cases heq : r = rel
    · rw [heq] at he hr ⊢
      obtain ⟨rfl, -⟩ | ⟨e', -, hcreate, hfault⟩ := copyOne_ok hone
      · exact h.sound rel e hr he
      · rw [entry_create_self hcreate] at he
        rwa [← Option.some.inj he]
    · rw [entry_copyOne_of_ne hone (fun h' => heq (List.append_cancel_left h'))] at he
      exact h.sound r e hr he
  ne_nil := by
    intro p hp
    rcases List.mem_append.mp hp with hp | hp
    · obtain ⟨a, rfl, -⟩ := mem_entered.mp hp
      exact List.append_ne_nil_of_right_ne_nil rel (List.cons_ne_nil a [])
    · exact h.ne_nil p (List.mem_cons_of_mem rel hp)
  exists_source := by
    intro p hp
    rcases List.mem_append.mp hp with hp | hp
    · obtain ⟨a, rfl, ha⟩ := mem_entered.mp hp
      exact ha
    · exact (extends_copyOne hone).entry_ne_none (h.exists_source p (List.mem_cons_of_mem rel hp))
  isDir_target := by
    intro p hp
    rcases List.mem_append.mp hp with hp | hp
    · -- what is entered is a directory, and so is its copy
      obtain ⟨a, rfl, ha⟩ := mem_entered.mp hp
      rw [List.dropLast_concat]
      rw [← List.append_assoc] at ha
      have hsource := t'.parent _ a ha
      obtain ⟨e, he⟩ := Option.ne_none_iff_exists'.mp (copied_of_copyOne hone)
      have hmirror := h.mirrors_copyOne hone rel e he
      rw [hsource] at hmirror
      rw [isDir_iff, he, hmirror]
    · exact (extends_copyOne hone).isDir (h.isDir_target p (List.mem_cons_of_mem rel hp))

/-- A copy fails only where something goes wrong. -/
theorem Mirroring.fault_of_error (h : Mirroring faults source target t (rel :: pending))
    (hone : copyOne faults source target t rel = .error t') :
    ∃ e, t.entry (source ++ rel) = some e ∧ faults.hits rel e = true := by
  obtain ⟨hfree, hfault⟩ := copyOne_error hone
  obtain ⟨e, he⟩ := Option.ne_none_iff_exists'.mp (h.exists_source rel List.mem_cons_self)
  refine ⟨e, he, hfault e he fun hnone => create_eq_none_iff.mp hnone ⟨?_, hfree⟩⟩
  rw [List.dropLast_append_of_ne_nil (h.ne_nil rel List.mem_cons_self)]
  exact h.isDir_target rel List.mem_cons_self

/-- The start of the walk, with an empty target. -/
structure CopyStart (source target : List α) (t : FileTree α C) : Prop where
  isDir_source : t.isDir source = true
  isDir_target : t.isDir target = true
  empty : ∀ rel, rel ≠ [] → t.entry (target ++ rel) = none

theorem CopyStart.mirroring (h : CopyStart source target t) :
    Mirroring faults source target t (entered listing source t []) where
  mirrors := by
    intro rel e he
    by_cases hrel : rel = []
    · rw [hrel, List.append_nil] at he ⊢
      rw [← he, isDir_iff.mp h.isDir_source, isDir_iff.mp h.isDir_target]
    · exact absurd ((h.empty rel hrel).symm.trans he) nofun
  sound := by
    intro rel e hrel he
    exact absurd ((h.empty rel hrel).symm.trans he) nofun
  ne_nil := by
    intro p hp
    obtain ⟨a, rfl, -⟩ := mem_entered.mp hp
    exact List.cons_ne_nil a []
  exists_source := by
    intro p hp
    obtain ⟨a, rfl, ha⟩ := mem_entered.mp hp
    exact ha
  isDir_target := by
    intro p hp
    obtain ⟨a, rfl, -⟩ := mem_entered.mp hp
    rw [List.dropLast_concat, List.append_nil]
    exact h.isDir_target

/-! ### A target that is not below the source -/

/-- Neither location is above the other. -/
def Unrelated (loc loc' : List α) : Prop := ¬ loc <+: loc' ∧ ¬ loc' <+: loc

omit [DecidableEq α] in
theorem Unrelated.append_ne {loc loc' : List α} (h : Unrelated loc loc') (r r' : List α) :
    loc ++ r ≠ loc' ++ r' := by
  intro heq
  have hle : loc' <+: loc ++ r := heq ▸ List.prefix_append loc' r'
  rcases List.prefix_or_prefix_of_prefix (List.prefix_append loc r) hle with hle | hle
  · exact h.1 hle
  · exact h.2 hle

/-- Two trees with the same entries below a location. -/
def SameBelow (loc : List α) (t t' : FileTree α C) : Prop :=
  ∀ rel, t'.entry (loc ++ rel) = t.entry (loc ++ rel)

theorem SameBelow.copyOne {t₀ : FileTree α C} (h : SameBelow source t₀ t)
    (hun : Unrelated source target) (hone : copyOne faults source target t rel = .ok t') :
    SameBelow source t₀ t' := by
  intro r
  rw [entry_copyOne_of_ne hone (hun.append_ne r rel), h r]

/-- From any tree that has the same source, the walk gets to the end of what is pending. -/
def Ends (listing : Listing α C) (faults : CopyFaults α) (source target : List α)
    (t₀ : FileTree α C) (pending : List (List α)) : Prop :=
  ∀ t, SameBelow source t₀ t → ∃ fuel r,
    copyAll listing faults source target fuel pending t = some r

theorem ends_append {t₀ : FileTree α C} {entries rest : List (List α)}
    (hcons : ∀ p ∈ entries, ∀ rest, Ends listing faults source target t₀ rest →
      Ends listing faults source target t₀ (p :: rest))
    (hrest : Ends listing faults source target t₀ rest) :
    Ends listing faults source target t₀ (entries ++ rest) := by
  induction entries with
  | nil => exact hrest
  | cons p entries ih =>
      apply hcons p List.mem_cons_self
      exact ih fun q hq => hcons q (List.mem_cons_of_mem p hq)

omit [DecidableEq α] in
/-- A tree has a depth. -/
theorem exists_length_le (t : FileTree α C) :
    ∃ depth, ∀ loc, t.entry loc ≠ none → loc.length ≤ depth := by
  refine ⟨(t.locs.map List.length).max?.getD 0, fun loc hloc => ?_⟩
  exact List.le_max?_getD_of_mem (List.mem_map_of_mem ((t.mem_locs loc).mpr hloc))

/-- An entry is walked over if the rest is. The induction is on how much deeper than the
entry the source can be. -/
theorem ends_cons {t₀ : FileTree α C} (hun : Unrelated source target) {depth : ℕ}
    (hdepth : ∀ loc, t₀.entry loc ≠ none → loc.length ≤ depth) (k : ℕ) :
    ∀ rel : List α, depth < rel.length + k → ∀ rest, Ends listing faults source target t₀ rest →
      Ends listing faults source target t₀ (rel :: rest) := by
  induction k with
  | zero =>
      intro rel hlong rest hrest t hsame
      cases hone : copyOne faults source target t rel with
      | error t' => exact ⟨1, .error t', by simp only [copyAll, hone]⟩
      | ok t' =>
          -- nothing of the source is that deep, so nothing is entered
          have hentered : entered listing source t' rel = [] := by
            apply List.eq_nil_iff_forall_not_mem.mpr
            intro p hp
            obtain ⟨a, rfl, ha⟩ := mem_entered.mp hp
            rw [hsame.copyOne hun hone] at ha
            have hle := hdepth _ ha
            simp only [List.length_append, List.length_singleton] at hle
            omega
          obtain ⟨fuel, r, hrun⟩ := hrest t' (hsame.copyOne hun hone)
          exact ⟨fuel + 1, r, by simp only [copyAll, hone, hentered, List.nil_append, hrun]⟩
  | succ k ih =>
      intro rel hlong rest hrest t hsame
      cases hone : copyOne faults source target t rel with
      | error t' => exact ⟨1, .error t', by simp only [copyAll, hone]⟩
      | ok t' =>
          -- what is entered is one deeper
          have hends : Ends listing faults source target t₀
              (entered listing source t' rel ++ rest) := by
            refine ends_append (fun p hp => ih p ?_) hrest
            obtain ⟨a, rfl, -⟩ := mem_entered.mp hp
            simp only [List.length_append, List.length_singleton]
            omega
          obtain ⟨fuel, r, hrun⟩ := hends t' (hsame.copyOne hun hone)
          exact ⟨fuel + 1, r, by simp only [copyAll, hone, hrun]⟩

theorem ends_of_unrelated (hun : Unrelated source target) (t : FileTree α C)
    (pending : List (List α)) :
    ∃ fuel r, copyAll listing faults source target fuel pending t = some r := by
  obtain ⟨depth, hdepth⟩ := t.exists_length_le
  have hends : Ends listing faults source target t (pending ++ []) := by
    refine ends_append (fun p _ => ends_cons hun hdepth (depth + 1) p (by omega)) ?_
    exact fun t' _ => ⟨0, .ok t', rfl⟩
  rw [List.append_nil] at hends
  exact hends t fun _ => rfl

/-- Everything below the source is copied, or is pending or below something pending. -/
def Covered (source target : List α) (t : FileTree α C) (pending : List (List α)) : Prop :=
  ∀ rel, rel ≠ [] → t.entry (source ++ rel) ≠ none →
    t.entry (target ++ rel) ≠ none ∨ ∃ p ∈ pending, p <+: rel

theorem mem_entered_of_below {a : α} {below : List α}
    (h : t.entry (source ++ (rel ++ a :: below)) ≠ none) :
    rel ++ [a] ∈ entered listing source t rel := by
  refine mem_entered.mpr ⟨a, rfl, ?_⟩
  rw [← List.append_assoc] at h ⊢
  exact entry_child_of_below h

theorem Covered.step (h : Covered source target t (rel :: pending))
    (hun : Unrelated source target) (hone : copyOne faults source target t rel = .ok t') :
    Covered source target t' (entered listing source t' rel ++ pending) := by
  intro r hr hne
  have hsame : t'.entry (source ++ r) = t.entry (source ++ r) :=
    entry_copyOne_of_ne hone (hun.append_ne r rel)
  rcases h r hr (by rwa [← hsame]) with hcopied | ⟨p, hp, hle⟩
  · exact .inl ((extends_copyOne hone).entry_ne_none hcopied)
  · rcases List.mem_cons.mp hp with rfl | hp
    · -- the entry itself is copied, and what is below it is entered
      obtain ⟨below, rfl⟩ := hle
      cases below with
      | nil =>
          rw [List.append_nil]
          exact .inl (copied_of_copyOne hone)
      | cons a below =>
          refine .inr ⟨p ++ [a], List.mem_append_left _ (mem_entered_of_below hne), ?_⟩
          exact ⟨below, by simp⟩
    · exact .inr ⟨p, List.mem_append_right _ hp, hle⟩

theorem CopyStart.covered (t : FileTree α C) :
    Covered source target t (entered listing source t []) := by
  intro rel hrel hne
  cases rel with
  | nil => exact absurd rfl hrel
  | cons a below =>
      have hmem : [] ++ [a] ∈ entered listing source t [] := mem_entered_of_below hne
      exact .inr ⟨[] ++ [a], hmem, below, rfl⟩

@[simp] theorem CopyStart.entered_self (h : CopyStart source source t) :
    entered listing source t [] = [] := by
  apply List.eq_nil_iff_forall_not_mem.mpr
  intro p hp
  obtain ⟨a, rfl, ha⟩ := mem_entered.mp hp
  exact ha (h.empty _ (List.cons_ne_nil a []))

theorem CopyStart.ends (h : CopyStart source target t)
    (hrel : Unrelated source target ∨ source = target) :
    ∃ fuel r, copyAll listing faults source target fuel (entered listing source t []) t =
      some r := by
  rcases hrel with hun | rfl
  · exact ends_of_unrelated hun t _
  · rw [h.entered_self]
    exact ⟨0, .ok t, rfl⟩

/-- A walk with nothing going wrong does not fail. Where it ends, what is below the target
is what is below the source, and nothing has gone wrong. -/
theorem CopyStart.copyAll (h : CopyStart source target t)
    (hrel : Unrelated source target ∨ source = target) {fuel : ℕ}
    {r : Except (FileTree α C) (FileTree α C)}
    (hrun : copyAll listing faults source target fuel (entered listing source t []) t = some r) :
    (∃ t', r = .ok t' ∧ (∀ rel, rel ≠ [] → t'.entry (target ++ rel) = t.entry (source ++ rel)) ∧
        ∀ rel e, rel ≠ [] → t.entry (source ++ rel) = some e → faults.hits rel e = false) ∨
      ∃ t', r = .error t' ∧
        ∃ rel e, rel ≠ [] ∧ t.entry (source ++ rel) = some e ∧ faults.hits rel e = true := by
  rcases hrel with hun | rfl
  · obtain ⟨t', rfl, hmirror, hsame, hcovered⟩ |
        ⟨t₁, rel, rest, t', rfl, ⟨hmirror, hsame, -⟩, hone⟩ :=
      copyAll_induction
        (P := fun t' pending => Mirroring faults source target t' pending ∧
          SameBelow source t t' ∧ Covered source target t' pending)
        (fun t₁ t₂ rel pending hP hone =>
          ⟨hP.1.step hone, hP.2.1.copyOne hun hone, hP.2.2.step hun hone⟩)
        ⟨h.mirroring, fun _ => rfl, CopyStart.covered t⟩ hrun
    · have hexact : ∀ rel, rel ≠ [] → t'.entry (target ++ rel) = t.entry (source ++ rel) := by
        intro rel hrel
        rw [← hsame rel]
        cases he : t'.entry (target ++ rel) with
        | some e => exact (hmirror.mirrors rel e he).symm
        | none =>
            by_contra hne
            rcases hcovered rel hrel (Ne.symm hne) with hcopied | ⟨p, hp, -⟩
            · exact hcopied he
            · cases hp
      refine .inl ⟨t', rfl, hexact, fun rel e hrel he => hmirror.sound rel e hrel ?_⟩
      rw [hexact rel hrel, he]
    · obtain ⟨e, he, hfault⟩ := hmirror.fault_of_error hone
      refine .inr ⟨t', rfl, rel, e, hmirror.ne_nil rel List.mem_cons_self, ?_, hfault⟩
      rw [← hsame rel, he]
  · -- nothing is below the source
    rw [h.entered_self, FileTree.copyAll] at hrun
    refine .inl ⟨t, (Option.some.inj hrun).symm, fun _ _ => rfl, fun rel e hrel he => ?_⟩
    exact absurd ((h.empty rel hrel).symm.trans he) nofun

/-! ### A target below the source -/

/-- Something is pending on the way to the copy of its own directory. -/
def Chased (below : List α) (pending : List (List α)) : Prop :=
  ∃ p ∈ pending, p <+: below ++ p.dropLast

theorem Chased.step {below : List α} (hbelow : below ≠ []) (htarget : target = source ++ below)
    (h : Mirroring faults source target t (rel :: pending))
    (hchased : Chased below (rel :: pending))
    (hone : copyOne faults source target t rel = .ok t') :
    Chased below (entered listing source t' rel ++ pending) := by
  obtain ⟨p, hp, hway⟩ := hchased
  rcases List.mem_cons.mp hp with rfl | hp
  · -- the copy of the entry is a directory, as the entry is, and the way to it goes on
    have hdir : t'.isDir (source ++ p) = true := by
      apply isDir_of_prefix _ ((extends_copyOne hone).isDir
        (h.isDir_target p List.mem_cons_self))
      rw [htarget, List.append_assoc]
      exact (List.prefix_append_right_inj source).mpr hway
    obtain ⟨e, he⟩ := Option.ne_none_iff_exists'.mp (copied_of_copyOne hone)
    have hmirror := h.mirrors_copyOne hone p e he
    have hlonger : p <+: below ++ p :=
      hway.trans ((List.prefix_append_right_inj below).mpr (List.dropLast_prefix p))
    obtain ⟨more, hmore⟩ := hlonger
    cases more with
    | nil =>
        rw [List.append_nil] at hmore
        exact absurd (List.self_eq_append_left.mp hmore) hbelow
    | cons a more =>
        have hexists : t'.entry (source ++ (p ++ a :: more)) ≠ none := by
          rw [hmore, ← List.append_assoc, ← htarget, he]
          exact Option.some_ne_none e
        refine ⟨p ++ [a], List.mem_append_left _ (mem_entered_of_below hexists), ?_⟩
        rw [List.dropLast_concat, ← hmore]
        exact ⟨more, by simp⟩
  · exact ⟨p, List.mem_append_right _ hp, hway⟩

theorem CopyStart.chased {below : List α} (hbelow : below ≠ [])
    (h : CopyStart source (source ++ below) t) :
    Chased below (entered listing source t []) := by
  cases below with
  | nil => exact absurd rfl hbelow
  | cons a below =>
      have hexists : t.entry (source ++ ([] ++ a :: below)) ≠ none := by
        rw [List.nil_append, isDir_iff.mp h.isDir_target]
        exact Option.some_ne_none _
      exact ⟨[] ++ [a], mem_entered_of_below hexists, below, by simp⟩

/-- A walk that extends what it walks over fails or does not end. -/
theorem CopyStart.copyAll_below {below : List α} (hbelow : below ≠ [])
    (h : CopyStart source (source ++ below) t) {fuel : ℕ}
    {r : Except (FileTree α C) (FileTree α C)}
    (hrun : FileTree.copyAll listing faults source (source ++ below) fuel
      (entered listing source t []) t = some r) :
    ∃ t', r = .error t' ∧ ∃ rel, ∃ e : Entry C, faults.hits rel e = true := by
  obtain ⟨t', rfl, -, p, hp, -⟩ | ⟨t₁, rel, rest, t', rfl, ⟨hmirror, -⟩, hone⟩ :=
    copyAll_induction
      (P := fun t' pending => Mirroring faults source (source ++ below) t' pending ∧
        Chased below pending)
      (fun t₁ t₂ rel pending hP hone => ⟨hP.1.step hone, hP.2.step hbelow rfl hP.1 hone⟩)
      ⟨h.mirroring, h.chased hbelow⟩ hrun
  · cases hp
  · obtain ⟨e, -, hfault⟩ := hmirror.fault_of_error hone
    exact ⟨t', rfl, rel, e, hfault⟩

/-- A target that starts empty and is not below the source is apart from it or the source
itself. -/
theorem CopyStart.unrelated_or_eq (h : CopyStart source target t)
    (hbelow : ¬ (source <+: target ∧ source ≠ target)) :
    Unrelated source target ∨ source = target := by
  by_cases heq : source = target
  · exact .inr heq
  · refine .inl ⟨fun hle => hbelow ⟨hle, heq⟩, ?_⟩
    rintro ⟨rel, hrel⟩
    have hne : rel ≠ [] := by
      rintro rfl
      rw [List.append_nil] at hrel
      exact heq hrel.symm
    have hnone := h.empty rel hne
    rw [hrel, isDir_iff.mp h.isDir_source] at hnone
    cases hnone

end FileTree

end Grvy.Lib
