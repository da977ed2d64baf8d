import Grvy.Utils.CopyDir

/-!
What `grvy_copy_dir` leaves: the copy, and `LC_ALL`.

A target below the source is copied into itself for ever. Any other target that
passes the checks becomes an exact copy. `LC_ALL` is put back at the end of the loop
alone, and every error in the loop returns before that.
-/

namespace Grvy.Utils

open Grvy.Lib

variable {C : Type} {listing : Listing FileName C} {faults : Faults} {fromDir toDir : CText}
  {v v' : FileView C} {source target : List FileName}

theorem mkdir_eq_some {path : CText} (h : v.mkdir path = some v') :
    ∃ loc, v.tree.locate v.cwd path = some loc ∧ v.tree.create loc .dir = some v'.tree ∧
      v'.cwd = v.cwd := by
  obtain ⟨loc, hloc, hcreate⟩ := Option.bind_eq_some_iff.mp h
  exact ⟨loc, hloc, FileView.create_eq_some.mp hcreate⟩

/-- What is known when the loop begins: the two locations, and an empty target, which is all
that can be new. -/
structure Prepared (fromDir toDir : CText) (source target : List FileName) (v v' : FileView C) :
    Prop where
  before : Located fromDir toDir source target v
  after : Located fromDir toDir source target v'
  start : FileTree.CopyStart source target v'.tree
  same : ∀ loc, loc ≠ target → v'.tree.entry loc = v.tree.entry loc

theorem empty_of_isEmpty (h : isEmpty toDir v = true)
    (hloc : v.tree.locate v.cwd toDir = some target) (rel : List FileName) (hrel : rel ≠ []) :
    v.tree.entry (target ++ rel) = none := by
  rw [isEmpty, hloc] at h
  exact FileTree.entry_below_of_children_nil (List.isEmpty_iff.mp h) hrel

theorem prepared_of_prepareTarget (h : prepareTarget fromDir toDir v = some v') :
    ∃ source target, Prepared fromDir toDir source target v v' := by
  rw [prepareTarget] at h
  split at h
  · cases h
  · next hfrom =>
      obtain ⟨source, hsource, hdir⟩ := FileTree.isDirectory_iff.mp (by simpa using hfrom)
      split at h
      · cases h
      · split at h
        · cases h
        · split at h
          · next hto =>
              obtain ⟨target, htarget, hdir'⟩ := FileTree.isDirectory_iff.mp hto
              split at h
              · cases h
              · next hempty =>
                  obtain rfl := Option.some.inj h
                  have hlocated : Located fromDir toDir source target v := ⟨hsource, htarget⟩
                  -- the target was there, and is empty
                  refine ⟨source, target, hlocated, hlocated, ⟨hdir, hdir', ?_⟩, fun _ _ => rfl⟩
                  exact empty_of_isEmpty (by simpa using hempty) htarget
          · obtain ⟨target, htarget, hcreate, hcwd⟩ := mkdir_eq_some h
            have hlocated : Located fromDir toDir source target v := ⟨hsource, htarget⟩
            have hext := FileTree.extends_create hcreate
            refine ⟨source, target, hlocated, hlocated.mono hcwd hext, ⟨hext.isDir hdir, ?_, ?_⟩,
              fun loc hne => FileTree.entry_create_of_ne hcreate hne⟩
            · exact FileTree.isDir_iff.mpr (FileTree.entry_create_self hcreate)
            · intro rel hrel
              rw [FileTree.entry_create_of_ne hcreate (by simpa using hrel)]
              -- nothing can be below a place that was free
              by_contra hne
              have hfree := FileTree.free_of_create hcreate
              rw [FileTree.isDir_iff.mp (FileTree.isDir_of_below hrel hne)] at hfree
              cases hfree

/-! ### The loop -/

/-- The loop is the walk over the tree from the places below the source. -/
theorem Prepared.loop (p : Prepared fromDir toDir source target v v') (listing : Listing FileName C)
    (faults : Faults) (fuel : ℕ) :
    (copyEntries listing faults fromDir toDir fuel (listDirectory listing fromDir v') v').map
        loopOutcome =
      FileTree.copyAll listing (faults.below fromDir) source target fuel
        (FileTree.entered listing source v'.tree []) v'.tree := by
  rw [← copyEntries_tree p.after, ← listDirectory_entered p.after.source []]
  rfl

theorem Located.unique {source' target' : List FileName}
    (h : Located fromDir toDir source target v) (h' : Located fromDir toDir source' target' v) :
    source' = source ∧ target' = target :=
  ⟨Option.some.inj (h'.source.symm.trans h.source), Option.some.inj (h'.target.symm.trans h.target)⟩

/-- The target lies below the source. -/
def TargetBelow (fromDir toDir : CText) (v : FileView C) : Prop :=
  ∃ source target, Located fromDir toDir source target v ∧ source <+: target ∧ source ≠ target

theorem Prepared.targetBelow_iff (p : Prepared fromDir toDir source target v v') :
    TargetBelow fromDir toDir v ↔ source <+: target ∧ source ≠ target := by
  constructor
  · rintro ⟨source', target', hlocated, hbelow⟩
    obtain ⟨rfl, rfl⟩ := p.before.unique hlocated
    exact hbelow
  · exact fun hbelow => ⟨source, target, p.before, hbelow⟩

/-- What is below the source is still what it was before the target was made. -/
theorem Prepared.source_same (p : Prepared fromDir toDir source target v v')
    (hbelow : ¬ TargetBelow fromDir toDir v) (rel : List FileName) (hrel : rel ≠ []) :
    v'.tree.entry (source ++ rel) = v.tree.entry (source ++ rel) := by
  apply p.same
  rintro rfl
  exact hbelow (p.targetBelow_iff.mpr ⟨List.prefix_append source rel, by simpa using hrel⟩)

theorem Prepared.not_below (p : Prepared fromDir toDir source target v v')
    (hbelow : ¬ TargetBelow fromDir toDir v) :
    FileTree.Unrelated source target ∨ source = target :=
  p.start.unrelated_or_eq fun h => hbelow (p.targetBelow_iff.mpr h)

/-! ### The whole call -/

/-- The state of a call: the files, `LC_ALL`, and what is saved of it. -/
abbrev Copying (C : Type) := WithSetting (FileView C) (Option CText)

section Call

variable {s : Copying C}

theorem copyDir_refused (h : prepareTarget fromDir toDir s.state = none) (fuel : ℕ) :
    (copyDir listing faults fromDir toDir fuel).run s = some (1, s) := by
  change copyDir listing faults fromDir toDir fuel s = _
  rw [copyDir, h]

theorem copyDir_prepared (h : prepareTarget fromDir toDir s.state = some v) (fuel : ℕ) :
    (copyDir listing faults fromDir toDir fuel).run s =
      (copyEntries listing faults fromDir toDir fuel (listDirectory listing fromDir v) v).map
        fun r => (r.1, { state := r.2, current := if r.1 = 0 then s.current else some ['C'],
                         slot := s.current }) := by
  change copyDir listing faults fromDir toDir fuel s = _
  rw [copyDir, h]
  dsimp only
  congr 1
  funext r
  split <;> rfl

/-- The call returns, and if it returns 0, what is below the target is what was below the
source. -/
def CopiesExactly (listing : Listing FileName C) (faults : Faults) (fromDir toDir : CText)
    (s : Copying C) : Prop :=
  (∃ fuel r, (copyDir listing faults fromDir toDir fuel).run s = some r) ∧
    ∀ fuel s', (copyDir listing faults fromDir toDir fuel).run s = some (0, s') →
      ∃ source target, s.state.tree.locate s.state.cwd fromDir = some source ∧
        s'.state.tree.locate s'.state.cwd toDir = some target ∧
        s'.state.tree.isDir target = true ∧
        ∀ rel, rel ≠ [] →
          s'.state.tree.entry (target ++ rel) = s.state.tree.entry (source ++ rel)

theorem copiesExactly_of_not_below (h : prepareTarget fromDir toDir s.state = some v)
    (hbelow : ¬ TargetBelow fromDir toDir s.state) :
    CopiesExactly listing faults fromDir toDir s := by
  obtain ⟨source, target, p⟩ := prepared_of_prepareTarget h
  refine ⟨?_, fun fuel s' hrun => ?_⟩
  · obtain ⟨fuel, r, hrun⟩ : ∃ fuel r, FileTree.copyAll listing (faults.below fromDir) source
        target fuel (FileTree.entered listing source v.tree []) v.tree = some r :=
      p.start.ends (p.not_below hbelow)
    rw [← p.loop] at hrun
    obtain ⟨r', hloop, -⟩ := Option.map_eq_some_iff.mp hrun
    refine ⟨fuel, ?_⟩
    rw [copyDir_prepared h, hloop, Option.map_some]
    exact ⟨_, rfl⟩
  · rw [copyDir_prepared h, Option.map_eq_some_iff] at hrun
    obtain ⟨⟨status, v'⟩, hloop, heq⟩ := hrun
    cases heq
    have hwalk := p.loop listing faults fuel
    rw [hloop] at hwalk
    obtain ⟨t', htree, hexact, -⟩ | ⟨t', htree, -⟩ :=
      p.start.copyAll (p.not_below hbelow) hwalk.symm
    · obtain rfl : v'.tree = t' := Except.ok.inj htree
      obtain ⟨hcwd, hext⟩ := kept_copyEntries hloop
      refine ⟨source, target, p.before.source, (p.after.mono hcwd hext).target,
        hext.isDir p.start.isDir_target, fun rel hrel => ?_⟩
      exact (hexact rel hrel).trans (p.source_same hbelow rel hrel)
    · cases htree

/-- A target below the source is never finished. -/
theorem not_copiesExactly_of_below (h : prepareTarget fromDir toDir s.state = some v)
    (hbelow : TargetBelow fromDir toDir s.state) :
    ¬ CopiesExactly listing .nothing fromDir toDir s := by
  obtain ⟨source, target, p⟩ := prepared_of_prepareTarget h
  obtain ⟨⟨rel, rfl⟩, hne⟩ := p.targetBelow_iff.mp hbelow
  rintro ⟨⟨fuel, r, hrun⟩, -⟩
  rw [copyDir_prepared h, Option.map_eq_some_iff] at hrun
  obtain ⟨r', hloop, -⟩ := hrun
  have hwalk := p.loop listing .nothing fuel
  rw [hloop] at hwalk
  -- a walk that has ended has ended with an error, but nothing fails
  obtain ⟨t', -, place, e, hfault⟩ := p.start.copyAll_below (by simpa using hne) hwalk.symm
  simp [CopyFaults.hits, Faults.below, Faults.nothing] at hfault

/-- Where nothing fails, the call returns with an exact copy unless the target is below the
source. Where the target is not below the source, it does so whatever fails. -/
theorem copyDir_copies_iff (listing : Listing FileName C) (fromDir toDir : CText) (s : Copying C)
    (h : (prepareTarget fromDir toDir s.state).isSome = true) :
    (CopiesExactly listing .nothing fromDir toDir s ↔ ¬ TargetBelow fromDir toDir s.state) ∧
      (¬ TargetBelow fromDir toDir s.state →
        ∀ faults, CopiesExactly listing faults fromDir toDir s) := by
  obtain ⟨v, hv⟩ := Option.isSome_iff_exists.mp h
  refine ⟨⟨fun hcopies hbelow => not_copiesExactly_of_below hv hbelow hcopies,
    copiesExactly_of_not_below hv⟩, fun hbelow faults => copiesExactly_of_not_below hv hbelow⟩

/-- Directories `s` and `w`, seen from `w`, and `LC_ALL` unset. In `s` are a file `x`, a directory
`b` with a file `y`, and in `b` a directory `e` with nothing in it. -/
def nested : Copying ℕ where
  state :=
    { tree := .build [([⟨['s'], by decide⟩], .dir), ([⟨['w'], by decide⟩], .dir),
        ([⟨['s'], by decide⟩, ⟨['x'], by decide⟩], .file 1),
        ([⟨['s'], by decide⟩, ⟨['b'], by decide⟩], .dir),
        ([⟨['s'], by decide⟩, ⟨['b'], by decide⟩, ⟨['y'], by decide⟩], .file 2),
        ([⟨['s'], by decide⟩, ⟨['b'], by decide⟩, ⟨['e'], by decide⟩], .dir)]
      cwd := [⟨['w'], by decide⟩]
      isDir_cwd := by decide }
  current := none
  slot := none

/-- The directory is copied with all that is in it, in four rounds of the loop. -/
theorem nested_copies :
    ((CopiesExactly .plain .nothing "../s".toList ['t'] nested ↔
          ¬ TargetBelow "../s".toList ['t'] nested.state) ∧
        (¬ TargetBelow "../s".toList ['t'] nested.state →
          ∀ faults, CopiesExactly .plain faults "../s".toList ['t'] nested)) ∧
      ((copyDir .plain .nothing "../s".toList ['t'] 4).run nested).map
          (fun r => (r.1, r.2.state.tree.stat r.2.state.cwd "t/b/y".toList,
            r.2.state.tree.stat r.2.state.cwd "t/b/e".toList)) =
        some (0, some (.file 2), some .dir) :=
  ⟨copyDir_copies_iff .plain "../s".toList ['t'] nested (by decide), by decide⟩

/-- A directory `s` with a file `x`, seen from the root, and `LC_ALL` unset. -/
def oneFile : Copying Unit where
  state :=
    { tree := .build [([⟨['s'], by decide⟩], .dir),
        ([⟨['s'], by decide⟩, ⟨['x'], by decide⟩], .file ())]
      cwd := []
      isDir_cwd := rfl }
  current := none
  slot := none

/-- A copy of a directory into itself passes the checks. -/
theorem oneFile_into_itself :
    (prepareTarget ['s'] ['s', '/', 't'] oneFile.state).isSome = true ∧
      ¬ CopiesExactly .plain .nothing ['s'] ['s', '/', 't'] oneFile := by
  have hpasses : (prepareTarget ['s'] ['s', '/', 't'] oneFile.state).isSome = true := by decide
  obtain ⟨v, hv⟩ := Option.isSome_iff_exists.mp hpasses
  refine ⟨hpasses, not_copiesExactly_of_below hv ?_⟩
  refine ⟨[⟨['s'], by decide⟩], [⟨['s'], by decide⟩, ⟨['t'], by decide⟩], ⟨?_, ?_⟩, ?_, ?_⟩
  · decide
  · decide
  · decide
  · decide

/-! ### LC_ALL -/

/-- Nothing fails for an entry below the source. -/
def NoneFails (faults : Faults) (fromDir : CText) (v : FileView C) : Prop :=
  ∀ source rel e, v.tree.locate v.cwd fromDir = some source → rel ≠ [] →
    v.tree.entry (source ++ rel) = some e → (faults.below fromDir).hits rel e = false

/-- The loop comes to its end if and only if the target is not below the source and nothing
fails below it. -/
theorem Prepared.loop_ends_iff (p : Prepared fromDir toDir source target v v') {fuel : ℕ}
    {status : ℤ} {v'' : FileView C}
    (hloop : copyEntries listing faults fromDir toDir fuel (listDirectory listing fromDir v') v' =
      some (status, v'')) :
    status = 0 ↔ ¬ TargetBelow fromDir toDir v ∧ NoneFails faults fromDir v := by
  have hwalk := p.loop listing faults fuel
  rw [hloop] at hwalk
  constructor
  · rintro rfl
    have hbelow : ¬ TargetBelow fromDir toDir v := by
      intro hbelow
      obtain ⟨⟨rel, rfl⟩, hne⟩ := p.targetBelow_iff.mp hbelow
      obtain ⟨t', herror, -⟩ := p.start.copyAll_below (by simpa using hne) hwalk.symm
      cases herror
    refine ⟨hbelow, fun source' rel e hsource hrel he => ?_⟩
    obtain rfl : source = source' := Option.some.inj (p.before.source.symm.trans hsource)
    obtain ⟨t', -, -, hnone⟩ | ⟨t', herror, -⟩ :=
      p.start.copyAll (p.not_below hbelow) hwalk.symm
    · refine hnone rel e hrel ?_
      rw [p.source_same hbelow rel hrel, he]
    · cases herror
  · rintro ⟨hbelow, hnone⟩
    by_contra hstatus
    rw [Option.map_some, loopOutcome, if_neg hstatus] at hwalk
    obtain ⟨t', hok, -⟩ | ⟨t', -, rel, e, hrel, he, hfault⟩ :=
      p.start.copyAll (p.not_below hbelow) hwalk.symm
    · cases hok
    · rw [p.source_same hbelow rel hrel] at he
      rw [hnone source rel e p.before.source hrel he] at hfault
      cases hfault

/-- When the call returns, `LC_ALL` is what it was before if it was `C` already, or if a check
failed, or if there was nothing in the way of the end of the loop. -/
theorem copyDir_restores_iff (listing : Listing FileName C) (faults : Faults)
    (fromDir toDir : CText) (fuel : ℕ) (s s' : Copying C) (status : ℤ)
    (hrun : (copyDir listing faults fromDir toDir fuel).run s = some (status, s')) :
    s'.current = s.current ↔
      s.current = some ['C'] ∨ prepareTarget fromDir toDir s.state = none ∨
        ¬ TargetBelow fromDir toDir s.state ∧ NoneFails faults fromDir s.state := by
  cases h : prepareTarget fromDir toDir s.state with
  | none =>
      rw [copyDir_refused h] at hrun
      obtain rfl : s = s' := congrArg Prod.snd (Option.some.inj hrun)
      exact ⟨fun _ => .inr (.inl rfl), fun _ => rfl⟩
  | some v =>
      obtain ⟨source, target, p⟩ := prepared_of_prepareTarget h
      rw [copyDir_prepared h, Option.map_eq_some_iff] at hrun
      obtain ⟨⟨status', v'⟩, hloop, heq⟩ := hrun
      cases heq
      rw [← p.loop_ends_iff hloop]
      dsimp only
      -- the setting is put back where the loop ends, and nowhere else
      by_cases hzero : status' = 0
      · rw [if_pos hzero]
        exact ⟨fun _ => .inr (.inr hzero), fun _ => rfl⟩
      · rw [if_neg hzero]
        constructor
        · exact fun hset => .inl hset.symm
        · rintro (hset | hnone | hend)
          · exact hset.symm
          · cases hnone
          · exact absurd hend hzero

theorem oneFile_restores :
    ∃ s', (copyDir .plain .nothing ['s'] ['t'] 1).run oneFile = some (0, s') ∧
      (s'.current = oneFile.current ↔
        oneFile.current = some ['C'] ∨ prepareTarget ['s'] ['t'] oneFile.state = none ∨
          ¬ TargetBelow ['s'] ['t'] oneFile.state ∧ NoneFails .nothing ['s'] oneFile.state) := by
  have hrun : ((copyDir .plain .nothing ['s'] ['t'] 1).run oneFile).map Prod.fst = some 0 := by
    decide
  obtain ⟨⟨status, s'⟩, hs', heq⟩ := Option.map_eq_some_iff.mp hrun
  obtain rfl : status = 0 := heq
  exact ⟨s', hs', copyDir_restores_iff .plain .nothing ['s'] ['t'] 1 oneFile s' 0 hs'⟩

/-- One file that cannot be copied leaves `LC_ALL` set. -/
theorem oneFile_leaves_setting :
    ∃ s', (copyDir .plain { Faults.nothing with copy := fun _ => true } ['s'] ['t'] 1).run
        oneFile = some (1, s') ∧ s'.current ≠ oneFile.current := by
  have hrun : ((copyDir .plain { Faults.nothing with copy := fun _ => true } ['s'] ['t'] 1).run
      oneFile).map (fun r => (r.1, r.2.current)) = some (1, some ['C']) := by decide
  obtain ⟨⟨status, s'⟩, hs', heq⟩ := Option.map_eq_some_iff.mp hrun
  obtain ⟨hstatus, hcurrent⟩ := Prod.mk.inj heq
  obtain rfl : status = 1 := hstatus
  refine ⟨s', hs', ?_⟩
  change s'.current = _ at hcurrent
  rw [hcurrent]
  exact Option.some_ne_none _

end Call

end Grvy.Utils
