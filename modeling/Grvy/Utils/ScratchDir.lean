import Grvy.Utils.NameTemplate

/-!
Scratch directories, which are removed when the process exits.

`grvy_create_scratch_dir` keeps the name of every directory it has made on a stack,
as the caller gave it. The handler that it registers with `atexit` takes the names
from the stack and removes what they lead to then, from the working directory in
which the process exits. A name that leads nowhere is passed over in silence.
-/

namespace Grvy.Utils

open Grvy.Lib

variable {C : Type}

/-- A process: its files, `_grvy_create_scratch_dir_paths`, the top first, and how often the
handler is registered. -/
structure Process (C : Type) where
  view : FileView C
  paths : List CText
  handlers : ℕ

/-- The call; `strdup` and `atexit` succeed or not. -/
def createScratchDir (nameTemplate : Option CharPointer) (unique : Unique)
    (strdup atexit : Bool) (s : Process C) : ℤ × Process C :=
  let status := (verifyStringEndsWith6Xs nameTemplate).status
  if status ≠ 0 then (status, s)
  else
    let r := createUniqueDir nameTemplate unique s.view
    let s := { s with view := r.2 }
    if r.1 ≠ 0 then (r.1, s)
    else if !strdup then (-1, s)
    else if s.paths.isEmpty && !atexit then (1, s)
    else
      let nameCopy := nameTemplate.map fun p => uniqueName p.text unique
      let handlers := if s.paths.isEmpty then s.handlers + 1 else s.handlers
      (r.1, { s with paths := nameCopy.toList ++ s.paths, handlers := handlers })

/-! ### The end of the process -/

/-- `_GRVY_RemoveAll`: the location that is removed, if there is one, and the files. -/
def removeAll (cwd : List FileName) (path : CText) (t : FileTree FileName C) :
    Option (List FileName) × FileTree FileName C :=
  match t.locate cwd path with
  | none => (none, t)
  | some loc => if (t.entry loc).isSome then (some loc, t.remove loc) else (none, t)

/-- The handler: what it removes, in order, and the files that are left. -/
def atexitHandler (cwd : List FileName) :
    List CText → FileTree FileName C → List (List FileName) × FileTree FileName C
  | [], t => ([], t)
  | path :: paths, t =>
      let r := removeAll cwd path t
      let r' := atexitHandler cwd paths r.2
      (r.1.toList ++ r'.1, r'.2)

/-- The handler once for each time it is registered. The stack is empty after the first. -/
def runHandlers (cwd : List FileName) : ℕ → List CText → FileTree FileName C →
    List (List FileName) × FileTree FileName C
  | 0, _, t => ([], t)
  | n + 1, paths, t =>
      let r := atexitHandler cwd paths t
      let r' := runHandlers cwd n [] r.2
      (r.1 ++ r'.1, r'.2)

def Process.exit (s : Process C) : List (List FileName) × FileTree FileName C :=
  runHandlers s.view.cwd s.handlers s.paths s.view.tree

/-! ### Runs -/

/-- What a process does: it changes its working directory, puts files and directories
somewhere, or creates a scratch directory. -/
inductive ScratchOp (C : Type) where
  | chdir (path : CText)
  | make (path : CText) (e : Entry C)
  | createScratchDir (nameTemplate : CharPointer) (unique : Unique) (strdup atexit : Bool)

def chdir (path : CText) (v : FileView C) : FileView C :=
  match v.tree.locate v.cwd path with
  | none => v
  | some loc => if h : v.tree.isDir loc = true then { v with cwd := loc, isDir_cwd := h } else v

def make (path : CText) (e : Entry C) (v : FileView C) : FileView C :=
  ((v.tree.locate v.cwd path).bind fun loc => v.create loc e).getD v

/-- A process, and the directories for which a call has returned 0, the last one first. -/
structure ScratchRun (C : Type) extends Process C where
  made : List (List FileName)

def ScratchRun.step (s : ScratchRun C) : ScratchOp C → ScratchRun C
  | .chdir path => { s with view := chdir path s.view }
  | .make path e => { s with view := make path e s.view }
  | .createScratchDir nameTemplate unique strdup atexit =>
      let r := createScratchDir (some nameTemplate) unique strdup atexit s.toProcess
      let loc := s.view.tree.locate s.view.cwd (uniqueName nameTemplate.text unique)
      { toProcess := r.2, made := if r.1 = 0 then loc.toList ++ s.made else s.made }

/-- A process that has made no scratch directory. -/
def ScratchRun.start (v : FileView C) : ScratchRun C where
  view := v
  paths := []
  handlers := 0
  made := []

def ScratchRun.run (ops : List (ScratchOp C)) (s : ScratchRun C) : ScratchRun C :=
  ops.foldl ScratchRun.step s

/-! ### The handler -/

section Handler

variable {cwd : List FileName} {t t' : FileTree FileName C} {paths : List CText}
  {made : List (List FileName)}

/-- The names lead to the directories, each when those before it in the list are gone. -/
def Leads (cwd : List FileName) :
    FileTree FileName C → List CText → List (List FileName) → Prop
  | _, [], [] => True
  | t, path :: paths, loc :: made =>
      t.locate cwd path = some loc ∧ t.entry loc ≠ none ∧ Leads cwd (t.remove loc) paths made
  | _, _, _ => False

theorem Leads.mono (h : Leads cwd t paths made) (hext : t.Extends t') :
    Leads cwd t' paths made := by
  induction paths generalizing t t' made with
  | nil =>
      cases made with
      | nil => trivial
      | cons loc made => exact h
  | cons path paths ih =>
      cases made with
      | nil => exact h
      | cons loc made =>
          obtain ⟨hloc, hexists, hrest⟩ := h
          exact ⟨hext.locate hloc, hext.entry_ne_none hexists, ih hrest (hext.remove loc)⟩

theorem length_atexitHandler_le (cwd : List FileName) (paths : List CText)
    (t : FileTree FileName C) : (atexitHandler cwd paths t).1.length ≤ paths.length := by
  induction paths generalizing t with
  | nil => exact Nat.le_refl 0
  | cons path paths ih =>
      have hone : (removeAll cwd path t).1.toList.length ≤ 1 := by
        cases (removeAll cwd path t).1 <;> simp
      have hrest := ih (removeAll cwd path t).2
      rw [atexitHandler, List.length_append, List.length_cons]
      omega

theorem removeAll_eq_some {path : CText} {loc : List FileName} :
    (removeAll cwd path t).1 = some loc ↔ t.locate cwd path = some loc ∧ t.entry loc ≠ none := by
  rw [removeAll]
  split
  · next h => simp [h]
  · next loc' h =>
      by_cases hsome : (t.entry loc').isSome = true
      · rw [if_pos hsome, h]
        constructor
        · intro heq
          obtain rfl := Option.some.inj heq
          exact ⟨rfl, Option.isSome_iff_ne_none.mp hsome⟩
        · rintro ⟨heq, -⟩
          exact heq
      · rw [if_neg hsome, h]
        constructor
        · nofun
        · rintro ⟨heq, hne⟩
          obtain rfl := Option.some.inj heq
          exact absurd (Option.isSome_iff_ne_none.mpr hne) hsome

theorem tree_removeAll {path : CText} {loc : List FileName}
    (h : (removeAll cwd path t).1 = some loc) : (removeAll cwd path t).2 = t.remove loc := by
  obtain ⟨hloc, hne⟩ := removeAll_eq_some.mp h
  simp only [removeAll, hloc, Option.isSome_iff_ne_none.mpr hne, if_true]

theorem tree_removeAll_none {path : CText} (h : (removeAll cwd path t).1 = none) :
    (removeAll cwd path t).2 = t := by
  rw [removeAll] at h ⊢
  split
  · rfl
  · next loc hloc =>
      rw [hloc] at h
      dsimp only at h
      split at h
      · cases h
      · next hsome => rw [if_neg hsome]

/-- The handler removes the directories themselves if and only if every name leads to its
own when its turn comes. -/
theorem removed_iff_leads (h : made.length = paths.length) :
    (atexitHandler cwd paths t).1 = made ↔ Leads cwd t paths made := by
  induction paths generalizing t made with
  | nil =>
      obtain rfl := List.length_eq_zero_iff.mp h
      exact ⟨fun _ => trivial, fun _ => rfl⟩
  | cons path paths ih =>
      obtain ⟨loc, made, rfl⟩ := List.exists_cons_of_length_eq_add_one h
      have hlen : made.length = paths.length := Nat.succ.inj h
      rw [atexitHandler, Leads]
      cases hone : (removeAll cwd path t).1 with
      | none =>
          -- one removal is missing
          constructor
          · intro heq
            have hle := length_atexitHandler_le cwd paths (removeAll cwd path t).2
            have hcount := congrArg List.length heq
            simp only [Option.toList_none, List.nil_append, List.length_cons] at hcount
            omega
          · rintro ⟨hloc, hne, -⟩
            rw [removeAll_eq_some.mpr ⟨hloc, hne⟩] at hone
            cases hone
      | some loc' =>
          obtain ⟨hloc', hne'⟩ := removeAll_eq_some.mp hone
          rw [tree_removeAll hone, Option.toList_some, List.singleton_append, List.cons.injEq]
          constructor
          · rintro ⟨rfl, hrest⟩
            exact ⟨hloc', hne', (ih hlen).mp hrest⟩
          · rintro ⟨hloc, -, hrest⟩
            obtain rfl : loc' = loc := Option.some.inj (hloc'.symm.trans hloc)
            exact ⟨rfl, (ih hlen).mpr hrest⟩

/-- The handler makes nothing. -/
theorem entry_atexitHandler_eq_none (paths : List CText) {l : List FileName}
    (h : t.entry l = none) : (atexitHandler cwd paths t).2.entry l = none := by
  induction paths generalizing t with
  | nil => exact h
  | cons path paths ih =>
      apply ih
      cases hone : (removeAll cwd path t).1 with
      | none => rwa [tree_removeAll_none hone]
      | some loc =>
          rw [tree_removeAll hone]
          exact FileTree.entry_remove_eq_none loc h

theorem entry_removed {d : List FileName} (hroot : d ≠ [])
    (hd : d ∈ (atexitHandler cwd paths t).1) (rel : List FileName) :
    (atexitHandler cwd paths t).2.entry (d ++ rel) = none := by
  induction paths generalizing t with
  | nil => cases hd
  | cons path paths ih =>
      rw [atexitHandler] at hd ⊢
      rcases List.mem_append.mp hd with hfirst | hrest
      · have hone := Option.mem_toList.mp hfirst
        -- what is removed after it makes nothing
        apply entry_atexitHandler_eq_none
        rw [tree_removeAll hone]
        exact t.entry_remove_below hroot rel
      · exact ih hrest

/-- What is not below a removed location stays. -/
theorem entry_kept {l : List FileName}
    (hl : ∀ d ∈ (atexitHandler cwd paths t).1, ¬ d <+: l) :
    (atexitHandler cwd paths t).2.entry l = t.entry l := by
  induction paths generalizing t with
  | nil => rfl
  | cons path paths ih =>
      rw [atexitHandler] at hl ⊢
      have hrest := ih fun d hd => hl d (List.mem_append_right _ hd)
      refine hrest.trans ?_
      cases hone : (removeAll cwd path t).1 with
      | none => rw [tree_removeAll_none hone]
      | some loc =>
          rw [tree_removeAll hone]
          apply FileTree.entry_remove_of_not_below
          exact hl loc (List.mem_append_left _ (by rw [hone]; exact List.mem_cons_self))

end Handler

/-! ### One step -/

section Steps

/-- What a call does: it makes a directory and keeps its name, or keeps nothing. -/
theorem createScratchDir_cases (nameTemplate : CharPointer) (unique : Unique)
    (strdup atexit : Bool) (s : Process C) {r : ℤ × Process C}
    (hr : createScratchDir (some nameTemplate) unique strdup atexit s = r) :
    (r.1 ≠ 0 ∧ s.view.tree.Extends r.2.view.tree ∧ r.2.view.cwd = s.view.cwd ∧
        r.2.paths = s.paths ∧ r.2.handlers = s.handlers) ∨
      (r.1 = 0 ∧ EndsWith6Xs nameTemplate.text ∧ r.2.view.cwd = s.view.cwd ∧
        ∃ loc, s.view.tree.locate s.view.cwd (uniqueName nameTemplate.text unique) = some loc ∧
          s.view.tree.create loc .dir = some r.2.view.tree ∧
          r.2.paths = uniqueName nameTemplate.text unique :: s.paths ∧
          r.2.handlers = if s.paths.isEmpty then s.handlers + 1 else s.handlers) := by
  subst hr
  rw [createScratchDir]
  split
  · next hstatus => exact .inl ⟨hstatus, FileTree.Extends.refl _, rfl, rfl, rfl⟩
  · obtain ⟨hfail, hsame⟩ | ⟨hok, hend, loc, hloc, htree, hcwd⟩ :=
      createUniqueDir_cases nameTemplate unique s.view
    · rw [if_pos hfail]
      refine .inl ⟨hfail, ?_, ?_, rfl, rfl⟩
      · dsimp only
        rw [hsame]
        exact FileTree.Extends.refl _
      · dsimp only
        rw [hsame]
    · -- from here on the directory is there, even if its name is not kept
      have hext := FileTree.extends_create htree
      dsimp only
      rw [if_neg (not_not.mpr hok)]
      split
      · exact .inl ⟨(by decide : (-1 : ℤ) ≠ 0), hext, hcwd, rfl, rfl⟩
      · split
        · exact .inl ⟨(by decide : (1 : ℤ) ≠ 0), hext, hcwd, rfl, rfl⟩
        · exact .inr ⟨hok, hend, hcwd, loc, hloc, htree, rfl, rfl⟩

theorem extends_make (path : CText) (e : Entry C) (v : FileView C) :
    v.tree.Extends (make path e v).tree ∧ (make path e v).cwd = v.cwd := by
  rw [make]
  cases h : (v.tree.locate v.cwd path).bind fun loc => v.create loc e with
  | none => exact ⟨FileTree.Extends.refl _, rfl⟩
  | some v' =>
      obtain ⟨loc, -, hcreate⟩ := Option.bind_eq_some_iff.mp h
      obtain ⟨htree, hcwd⟩ := FileView.create_eq_some.mp hcreate
      exact ⟨FileTree.extends_create htree, hcwd⟩

@[simp] theorem tree_chdir (path : CText) (v : FileView C) : (chdir path v).tree = v.tree := by
  rw [chdir]
  split
  · rfl
  · split <;> rfl

/-- What is known of the directories made so far. -/
structure ScratchInvariant (s : ScratchRun C) : Prop where
  handlers : s.handlers = if s.paths.isEmpty then 0 else 1
  length : s.made.length = s.paths.length
  exists_made : ∀ d ∈ s.made, s.view.tree.entry d ≠ none
  ne_nil : ∀ d ∈ s.made, d ≠ []
  nodup : s.made.Nodup

theorem ScratchInvariant.start (v : FileView C) : ScratchInvariant (ScratchRun.start v) where
  handlers := rfl
  length := rfl
  exists_made := nofun
  ne_nil := nofun
  nodup := List.nodup_nil

/-- The invariant is about the files only as far as what was made is there. -/
theorem ScratchInvariant.mono {s s' : ScratchRun C} (h : ScratchInvariant s)
    (hext : s.view.tree.Extends s'.view.tree) (hpaths : s'.paths = s.paths)
    (hhandlers : s'.handlers = s.handlers) (hmade : s'.made = s.made) : ScratchInvariant s' where
  handlers := by rw [hhandlers, hpaths, h.handlers]
  length := by rw [hmade, hpaths, h.length]
  exists_made := by
    rw [hmade]
    exact fun d hd => hext.entry_ne_none (h.exists_made d hd)
  ne_nil := by
    rw [hmade]
    exact h.ne_nil
  nodup := by
    rw [hmade]
    exact h.nodup

/-- One more directory is made and its name kept. -/
theorem ScratchInvariant.push {s s' : ScratchRun C} (h : ScratchInvariant s) {path : CText}
    {loc : List FileName} (htree : s.view.tree.create loc .dir = some s'.view.tree)
    (hpaths : s'.paths = path :: s.paths)
    (hhandlers : s'.handlers = if s.paths.isEmpty then s.handlers + 1 else s.handlers)
    (hmade : s'.made = loc :: s.made) : ScratchInvariant s' := by
  have hfree := FileTree.free_of_create htree
  have hext := FileTree.extends_create htree
  refine ⟨?handlers, ?length, ?exists_made, ?ne_nil, ?nodup⟩
  case handlers =>
    rw [hhandlers, hpaths, h.handlers]
    cases s.paths <;> rfl
  case length => rw [hpaths, hmade, List.length_cons, List.length_cons, h.length]
  case exists_made =>
    rw [hmade]
    intro d hd
    rcases List.mem_cons.mp hd with rfl | hd
    · rw [FileTree.entry_create_self htree]
      exact Option.some_ne_none _
    · exact hext.entry_ne_none (h.exists_made d hd)
  case ne_nil =>
    rw [hmade]
    intro d hd
    rcases List.mem_cons.mp hd with rfl | hd
    · rintro rfl
      rw [s.view.tree.root] at hfree
      cases hfree
    · exact h.ne_nil d hd
  case nodup =>
    rw [hmade, List.nodup_cons]
    exact ⟨fun hmem => h.exists_made loc hmem hfree, h.nodup⟩

theorem ScratchInvariant.step {s : ScratchRun C} (h : ScratchInvariant s) (op : ScratchOp C) :
    ScratchInvariant (s.step op) := by
  cases op with
  | chdir path =>
      refine h.mono ?_ rfl rfl rfl
      rw [ScratchRun.step, tree_chdir]
      exact FileTree.Extends.refl _
  | make path e => exact h.mono (extends_make path e s.view).1 rfl rfl rfl
  | createScratchDir nameTemplate unique strdup atexit =>
      generalize hr : createScratchDir (some nameTemplate) unique strdup atexit s.toProcess = r
      rw [ScratchRun.step, hr]
      rcases createScratchDir_cases nameTemplate unique strdup atexit s.toProcess hr with
        ⟨hfail, hext, -, hpaths, hhandlers⟩ | ⟨hok, -, -, loc, hloc, htree, hpaths, hhandlers⟩
      · exact h.mono hext hpaths hhandlers (if_neg hfail)
      · rw [hloc, if_pos hok]
        exact h.push htree hpaths hhandlers rfl

theorem ScratchInvariant.run {s : ScratchRun C} (h : ScratchInvariant s)
    (ops : List (ScratchOp C)) : ScratchInvariant (s.run ops) := by
  induction ops generalizing s with
  | nil => exact h
  | cons op ops ih => exact ih (h.step op)

/-- The handler is run once if there is anything to remove. -/
theorem ScratchInvariant.exit_eq {s : ScratchRun C} (h : ScratchInvariant s) :
    s.exit = atexitHandler s.view.cwd s.paths s.view.tree := by
  rw [Process.exit, h.handlers]
  cases s.paths with
  | nil => rfl
  | cons path paths =>
      rw [List.isEmpty_cons, if_neg Bool.false_ne_true]
      simp only [runHandlers, List.append_nil]

end Steps

/-! ### Where the process exits -/

/-- A template that is absolute, or is used where the process exits. -/
def CallKeeps (exitDir : List FileName) (s : ScratchRun C) : ScratchOp C → Prop
  | .chdir _ => True
  | .make _ _ => True
  | .createScratchDir nameTemplate _ _ _ =>
      isAbsolute nameTemplate.text = true ∨ s.view.cwd = exitDir

def CallsKeep (exitDir : List FileName) : List (ScratchOp C) → ScratchRun C → Prop
  | [], _ => True
  | op :: ops, s => CallKeeps exitDir s op ∧ CallsKeep exitDir ops (s.step op)

theorem isAbsolute_uniqueName {nameTemplate : CText} (hend : EndsWith6Xs nameTemplate)
    (habs : isAbsolute nameTemplate = true) (unique : Unique) :
    isAbsolute (uniqueName nameTemplate unique) = true := by
  obtain ⟨name, rfl⟩ := hend
  have hname : (name ++ List.replicate 6 'X').rdrop 6 = name :=
    List.rdrop_append_length
  rw [uniqueName, hname]
  cases name with
  | nil =>
      -- the six X's are not absolute
      exact absurd habs (by decide)
  | cons x name => exact habs

/-- The name leads to the same place from where the process exits. -/
theorem locate_exitDir {exitDir : List FileName} {s : ScratchRun C} {nameTemplate : CText}
    {unique : Unique} {loc : List FileName}
    (hkeeps : isAbsolute nameTemplate = true ∨ s.view.cwd = exitDir)
    (hend : EndsWith6Xs nameTemplate)
    (hloc : s.view.tree.locate s.view.cwd (uniqueName nameTemplate unique) = some loc) :
    s.view.tree.locate exitDir (uniqueName nameTemplate unique) = some loc := by
  rcases hkeeps with habs | rfl
  · have hname := isAbsolute_uniqueName hend habs unique
    have hne := FileTree.ne_nil_of_locate hloc
    rw [FileTree.locate_of_ne_nil hne, pathStart, if_pos hname] at hloc ⊢
    exact hloc
  · exact hloc

theorem leads_step {exitDir : List FileName} {s : ScratchRun C} {op : ScratchOp C}
    (hkeeps : CallKeeps exitDir s op) (h : Leads exitDir s.view.tree s.paths s.made) :
    Leads exitDir (s.step op).view.tree (s.step op).paths (s.step op).made := by
  cases op with
  | chdir path =>
      rw [ScratchRun.step, tree_chdir]
      exact h
  | make path e => exact h.mono (extends_make path e s.view).1
  | createScratchDir nameTemplate unique strdup atexit =>
      generalize hr : createScratchDir (some nameTemplate) unique strdup atexit s.toProcess = r
      rw [ScratchRun.step, hr]
      rcases createScratchDir_cases nameTemplate unique strdup atexit s.toProcess hr with
        ⟨hfail, hext, -, hpaths, -⟩ | ⟨hok, hend, -, loc, hloc, htree, hpaths, -⟩
      · rw [if_neg hfail, hpaths]
        exact h.mono hext
      · have hext := FileTree.extends_create htree
        rw [hloc, if_pos hok, hpaths, Option.toList_some, List.singleton_append]
        refine ⟨hext.locate (locate_exitDir hkeeps hend hloc), ?_, ?_⟩
        · rw [FileTree.entry_create_self htree]
          exact Option.some_ne_none _
        -- when the new directory is removed first, the tree is the old one again
        · exact h.mono (hext.remove_new (FileTree.free_of_create htree))

theorem leads_run {exitDir : List FileName} {ops : List (ScratchOp C)} {s : ScratchRun C}
    (hkeep : CallsKeep exitDir ops s) (h : Leads exitDir s.view.tree s.paths s.made) :
    Leads exitDir (s.run ops).view.tree (s.run ops).paths (s.run ops).made := by
  induction ops generalizing s with
  | nil => exact h
  | cons op ops ih => exact ih hkeep.2 (leads_step hkeep.1 h)

/-- At exit the directories that were made are removed, each once and with what is in it,
and nothing else is. -/
structure Gone (s : ScratchRun C) : Prop where
  removed : s.exit.1 = s.made
  once : s.exit.1.Nodup
  gone : ∀ d ∈ s.made, ∀ rel, s.exit.2.entry (d ++ rel) = none
  kept : ∀ loc, (∀ d ∈ s.made, ¬ d <+: loc) → s.exit.2.entry loc = s.view.tree.entry loc

theorem ScratchInvariant.gone_iff {s : ScratchRun C} (h : ScratchInvariant s) :
    Gone s ↔ Leads s.view.cwd s.view.tree s.paths s.made := by
  rw [← removed_iff_leads h.length, ← h.exit_eq]
  constructor
  · exact fun hgone => hgone.removed
  · intro hremoved
    exact
      { removed := hremoved
        once := by
          rw [hremoved]
          exact h.nodup
        gone := by
          intro d hd rel
          rw [← hremoved] at hd
          rw [h.exit_eq] at hd ⊢
          exact entry_removed (h.ne_nil d (by rwa [← hremoved, h.exit_eq])) hd rel
        kept := by
          intro loc hloc
          rw [← hremoved] at hloc
          rw [h.exit_eq] at hloc ⊢
          exact entry_kept hloc }

/-- The scratch directories are gone at exit if and only if every name leads to its own
directory then, in whatever order the process has created them and gone about. They are if
every template is absolute or is used where the process exits. -/
theorem scratchDirs_gone_iff (ops : List (ScratchOp C)) (v : FileView C) :
    (Gone ((ScratchRun.start v).run ops) ↔
        Leads ((ScratchRun.start v).run ops).view.cwd ((ScratchRun.start v).run ops).view.tree
          ((ScratchRun.start v).run ops).paths ((ScratchRun.start v).run ops).made) ∧
      (CallsKeep ((ScratchRun.start v).run ops).view.cwd ops (.start v) →
        Gone ((ScratchRun.start v).run ops)) := by
  have hinv := (ScratchInvariant.start v).run ops
  refine ⟨hinv.gone_iff, fun hkeep => ?_⟩
  apply hinv.gone_iff.mpr
  exact leads_run hkeep trivial

/-- A directory `d`, seen from the root. -/
def oneDirectory : FileView Unit where
  tree := .build [([⟨['d'], by decide⟩], .dir)]
  cwd := []
  isDir_cwd := rfl

def sixLetters : Unique :=
  ⟨"abcdef".toList, by decide, List.all_eq_true.mp (by decide)⟩

def createNamed (nameTemplate : CText) : ScratchOp Unit :=
  .createScratchDir { text := nameTemplate, before := fun _ => 'X' } sixLetters true true

/-- A process that creates a scratch directory by its absolute name, changes to `d`, creates
another one there, and puts a file into each. -/
def staying : List (ScratchOp Unit) :=
  [createNamed "/tXXXXXX".toList, .chdir ['d'], .make "../tabcdef/x".toList (.file ()),
    createNamed "uXXXXXX".toList, .make "uabcdef/y".toList (.file ())]

theorem staying_gone :
    Gone ((ScratchRun.start oneDirectory).run staying) ∧
      ((ScratchRun.start oneDirectory).run staying).made =
        [[⟨['d'], by decide⟩, ⟨"uabcdef".toList, by decide⟩], [⟨"tabcdef".toList, by decide⟩]] :=
  ⟨(scratchDirs_gone_iff staying oneDirectory).2
    ⟨.inl (by decide), trivial, trivial, .inr (by decide), trivial, trivial⟩, by decide⟩

/-- The process leaves the directory in which it has made a scratch directory. -/
def leaving : List (ScratchOp Unit) := [createNamed "tXXXXXX".toList, .chdir ['d']]

theorem leaving_not_gone :
    ∃ d ∈ ((ScratchRun.start oneDirectory).run leaving).made,
      ((ScratchRun.start oneDirectory).run leaving).exit.2.entry d = some .dir := by
  refine ⟨[⟨"tabcdef".toList, by decide⟩], ?_, ?_⟩
  · decide
  · decide

end Grvy.Utils
