import Grvy.Lib.TreeCopy
import Grvy.Lib.PathText
import Grvy.Lib.SavedSetting

/-!
`grvy_copy_dir`: checks of the two paths, the making of the target, and the loop
over the source, with `LC_ALL` set to `C` meanwhile.

The paths are text, as in the program. The path of an entry goes on from the path
of the source, and what is put behind the path of the target is what is left of it
when the path of the source is taken off. The loop is the copying walk of the tree,
from the location of one path to the location of the other.
-/

namespace Grvy.Utils

open Grvy.Lib

/-- The entries, by their paths, for which `copy` fails, or `stat` or `chmod` fails for
the copy. -/
structure Faults where
  copy : CText → Bool
  stat : CText → Bool
  chmod : CText → Bool

/-- Nothing fails. -/
def Faults.nothing : Faults where
  copy := fun _ => false
  stat := fun _ => false
  chmod := fun _ => false

/-- `std::string::find`, for a pattern that occurs. -/
def find (pattern text : CText) : ℕ := text.tails.findIdx fun s => pattern.isPrefixOf s

section Model

variable {C : Type} (listing : Listing FileName C) (faults : Faults) (fromDir toDir : CText)

/-- `is_empty`, of a directory. -/
def isEmpty (path : CText) (v : FileView C) : Bool :=
  match v.tree.locate v.cwd path with
  | none => true
  | some loc => (v.tree.children loc).isEmpty

/-- The checks, and the making of the target; `none` is the return of 1. -/
def prepareTarget (v : FileView C) : Option (FileView C) :=
  if !v.tree.isDirectory v.cwd fromDir then none
  else if fromDir = toDir then none
  else if v.tree.pathExists v.cwd toDir && !v.tree.isDirectory v.cwd toDir then none
  else if v.tree.isDirectory v.cwd toDir then
    if !isEmpty toDir v then none else some v
  else v.mkdir toDir

/-- `copy` of a file or a directory. -/
def copy (pathIn target : CText) (v : FileView C) : Option (FileView C) :=
  if faults.copy pathIn then none
  else
    match v.tree.stat v.cwd pathIn with
    | none => none
    | some e => (v.tree.locate v.cwd target).bind fun loc => v.create loc e

/-- The body of the loop; an error is the return of 1. -/
def copyEntry (pathIn : CText) (v : FileView C) : Except (FileView C) (FileView C) :=
  let target := appendPath toDir (pathIn.drop (find fromDir pathIn + fromDir.length))
  if v.tree.pathExists v.cwd target then .ok v
  else
    match copy faults pathIn target v with
    | none => .error v
    | some v' =>
        if v'.tree.isDirectory v'.cwd target then
          if faults.stat pathIn then .error v'
          else if faults.chmod pathIn then .error v'
          else .ok v'
        else .ok v'

/-- What `recursive_directory_iterator` finds when it enters a path. -/
def listDirectory (path : CText) (v : FileView C) : List CText :=
  match v.tree.locate v.cwd path with
  | none => []
  | some loc =>
      if v.tree.isDir loc then
        (listing.names v.tree loc).map fun name => appendPath path name.val
      else []

/-- The loop, for a number of entries at most. -/
def copyEntries : ℕ → List CText → FileView C → Option (ℤ × FileView C)
  | _, [], v => some (0, v)
  | 0, _ :: _, _ => none
  | fuel + 1, pathIn :: pending, v =>
      match copyEntry faults fromDir toDir pathIn v with
      | .error v' => some (1, v')
      | .ok v' => copyEntries fuel (listDirectory listing pathIn v' ++ pending) v'

/-- The function, with `LC_ALL` as the setting that is saved and put back. -/
def copyDir (fuel : ℕ) : SettingM (FileView C) (Option CText) ℤ := fun s =>
  match prepareTarget fromDir toDir s.state with
  | none => some (1, s)
  | some v =>
      let s := { s with state := v }.save (some ['C'])
      (copyEntries listing faults fromDir toDir fuel (listDirectory listing fromDir v) v).map
        fun r =>
          if r.1 = 0 then (r.1, { s with state := r.2 }.putBack)
          else (r.1, { s with state := r.2 })

end Model

/-! ### The paths of the entries -/

/-- The path of what is below a path. -/
def extendPath (path : CText) (rel : List FileName) : CText :=
  rel.foldl (fun p name => appendPath p name.val) path

@[simp] theorem extendPath_append (path : CText) (rel : List FileName) (name : FileName) :
    extendPath path (rel ++ [name]) = appendPath (extendPath path rel) name.val := by
  rw [extendPath, List.foldl_append]
  rfl

/-- The path of an entry goes on from the path of the source with the names of the entry. -/
theorem exists_extendPath (path : CText) (rel : List FileName) :
    ∃ rest, extendPath path rel = path ++ rest ∧ tokens rest = rel.map Subtype.val := by
  induction rel using List.reverseRecOn with
  | nil => exact ⟨[], (List.append_nil path).symm, rfl⟩
  | append_singleton rel name ih =>
      obtain ⟨rest, heq, htokens⟩ := ih
      have hname := name.property
      rw [extendPath_append, heq, appendPath, if_neg hname.1, List.map_append, ← htokens,
        List.map_singleton]
      split
      · next hjoin =>
          refine ⟨rest ++ name.val, by rw [List.append_assoc], ?_⟩
          rw [tokens_append _ name.val, tokens_val]
          by_cases hrest : rest = []
          · exact .inl hrest
          · simp only [Bool.or_eq_true, decide_eq_true_eq] at hjoin
            rcases hjoin with (habs | hnil) | hlast
            · have hhead := of_decide_eq_true habs
              exact absurd (List.mem_of_mem_head? hhead) hname.2.1
            · exact absurd (List.append_eq_nil_iff.mp hnil).2 hrest
            · exact .inr (by rwa [List.getLast?_append_of_ne_nil _ hrest] at hlast)
      · refine ⟨rest ++ '/' :: name.val, by rw [List.append_assoc], ?_⟩
        simp

@[simp] theorem tokens_extendPath (path : CText) (rel : List FileName) :
    tokens (extendPath path rel) = tokens path ++ rel.map Subtype.val := by
  induction rel using List.reverseRecOn with
  | nil =>
      rw [List.map_nil, List.append_nil]
      rfl
  | append_singleton rel name ih =>
      rw [extendPath_append, tokens_appendPath, ih, tokens_val, List.map_append, List.append_assoc]
      rfl

theorem find_prefix (path rest : CText) : find path (path ++ rest) = 0 := by
  have hle : path.isPrefixOf (path ++ rest) = true :=
    List.isPrefixOf_iff_prefix.mpr (List.prefix_append path rest)
  rw [find]
  cases htext : path ++ rest with
  | nil =>
      rw [htext] at hle
      rw [List.tails, List.findIdx_cons, hle, cond_true]
  | cons x text =>
      rw [htext] at hle
      rw [List.tails_cons, List.findIdx_cons, hle, cond_true]

/-- The path of the copy of an entry. -/
theorem exists_target (fromDir toDir : CText) (rel : List FileName) :
    ∃ target, appendPath toDir ((extendPath fromDir rel).drop
        (find fromDir (extendPath fromDir rel) + fromDir.length)) = target ∧
      toDir <+: target ∧ tokens target = tokens toDir ++ rel.map Subtype.val := by
  obtain ⟨rest, heq, htokens⟩ := exists_extendPath fromDir rel
  refine ⟨appendPath toDir rest, ?_, prefix_appendPath toDir rest, ?_⟩
  · rw [heq, find_prefix, Nat.zero_add, List.drop_left]
  · rw [tokens_appendPath, htokens]

section Refinement

variable {C : Type} {listing : Listing FileName C} {faults : Faults} {fromDir toDir : CText}
  {v v' : FileView C} {source target : List FileName} {rel : List FileName}

theorem locate_extendPath (h : v.tree.locate v.cwd fromDir = some source)
    (rel : List FileName) : v.tree.locate v.cwd (extendPath fromDir rel) =
      v.tree.walk source (rel.map .down) := by
  obtain ⟨rest, heq, -⟩ := exists_extendPath fromDir rel
  exact FileTree.locate_of_prefix h (heq ▸ List.prefix_append fromDir rest)
    (tokens_extendPath fromDir rel)

theorem stat_of_walk {path : CText} {loc : List FileName}
    (h : v.tree.locate v.cwd path = v.tree.walk loc (rel.map .down)) :
    v.tree.stat v.cwd path = v.tree.entry (loc ++ rel) := by
  rw [FileTree.stat, h, FileTree.entry_walk_names]

/-- What the two paths lead to, and still do when the tree has grown. -/
structure Located (fromDir toDir : CText) (source target : List FileName) (v : FileView C) :
    Prop where
  source : v.tree.locate v.cwd fromDir = some source
  target : v.tree.locate v.cwd toDir = some target

theorem Located.mono (h : Located fromDir toDir source target v) (hcwd : v'.cwd = v.cwd)
    (hext : v.tree.Extends v'.tree) : Located fromDir toDir source target v' where
  source := by
    rw [hcwd]
    exact hext.locate h.source
  target := by
    rw [hcwd]
    exact hext.locate h.target

/-- What goes wrong, by the places of the entries below the source. -/
def Faults.below (faults : Faults) (fromDir : CText) : CopyFaults FileName where
  making := fun rel => faults.copy (extendPath fromDir rel)
  finishing := fun rel =>
    faults.stat (extendPath fromDir rel) || faults.chmod (extendPath fromDir rel)

/-- The tree of either outcome. -/
def outcomeTree : Except (FileView C) (FileView C) →
    Except (FileTree FileName C) (FileTree FileName C)
  | .ok v => .ok v.tree
  | .error v => .error v.tree

theorem copy_tree (faults : Faults) {path : CText}
    (h : v.tree.locate v.cwd fromDir = some source)
    (htarget : v.tree.locate v.cwd path = v.tree.walk target (rel.map .down)) :
    (copy faults (extendPath fromDir rel) path v).map FileView.tree =
      if faults.copy (extendPath fromDir rel) then none
      else (v.tree.entry (source ++ rel)).bind fun e => v.tree.create (target ++ rel) e := by
  rw [copy, stat_of_walk (locate_extendPath h rel)]
  split
  · rfl
  · cases v.tree.entry (source ++ rel) with
    | none => rfl
    | some e =>
        dsimp only
        rw [htarget, Option.map_bind, Option.bind_some, ← FileTree.create_walk_names]
        congr 1
        funext loc
        exact v.map_tree_create loc e

theorem kept_copy {pathIn path : CText} (h : copy faults pathIn path v = some v') :
    v'.cwd = v.cwd ∧ v.tree.Extends v'.tree := by
  rw [copy] at h
  split at h
  · cases h
  · split at h
    · cases h
    · obtain ⟨loc, -, hcreate⟩ := Option.bind_eq_some_iff.mp h
      obtain ⟨htree, hcwd⟩ := FileView.create_eq_some.mp hcreate
      exact ⟨hcwd, FileTree.extends_create htree⟩

theorem isDirectory_of_stat {path : CText} {e : Entry C}
    (h : v.tree.stat v.cwd path = some e) : v.tree.isDirectory v.cwd path = e.isDir := by
  rw [FileTree.isDirectory, h]
  cases e <;> rfl

/-- After a copy, a directory is looked at again, and that can go wrong. -/
theorem outcomeTree_finish (faults : Faults) {path : CText} {e : Entry C}
    (hstat : v.tree.stat v.cwd path = some e) (rel : List FileName) :
    outcomeTree
        (if v.tree.isDirectory v.cwd path then
          if faults.stat (extendPath fromDir rel) then .error v
          else if faults.chmod (extendPath fromDir rel) then .error v
          else .ok v
        else .ok v) =
      if e.isDir && (faults.below fromDir).finishing rel then .error v.tree else .ok v.tree := by
  rw [isDirectory_of_stat hstat]
  cases e with
  | file c => rfl
  | dir =>
      simp only [Entry.isDir, Faults.below, Bool.true_and, if_true]
      cases faults.stat (extendPath fromDir rel) with
      | true => rfl
      | false => cases faults.chmod (extendPath fromDir rel) <;> rfl

/-- The body of the loop copies the entry at one place. -/
theorem copyEntry_tree (faults : Faults) (h : Located fromDir toDir source target v)
    (rel : List FileName) :
    outcomeTree (copyEntry faults fromDir toDir (extendPath fromDir rel) v) =
      FileTree.copyOne (faults.below fromDir) source target v.tree rel := by
  obtain ⟨path, hpath, hle, htokens⟩ := exists_target fromDir toDir rel
  have htarget := FileTree.locate_of_prefix h.target hle htokens
  have hcopy := copy_tree faults h.source htarget
  have hmaking : (faults.below fromDir).making rel = faults.copy (extendPath fromDir rel) := rfl
  rw [copyEntry, hpath, FileTree.copyOne, FileTree.pathExists, stat_of_walk htarget, hmaking]
  split
  · rfl
  · cases hc : copy faults (extendPath fromDir rel) path v with
    | none =>
        rw [hc, Option.map_none] at hcopy
        dsimp only
        split
        · rfl
        · next hfault =>
            rw [if_neg hfault] at hcopy
            cases he : v.tree.entry (source ++ rel) with
            | none => rfl
            | some e =>
                rw [he, Option.bind_some] at hcopy
                dsimp only
                rw [← hcopy]
                rfl
    | some v' =>
        rw [hc, Option.map_some] at hcopy
        split at hcopy
        · cases hcopy
        · next hfault =>
            obtain ⟨e, he, hcreate⟩ := Option.bind_eq_some_iff.mp hcopy.symm
            -- the path of the copy leads to the entry just made
            have htarget' : v'.tree.locate v'.cwd path =
                v'.tree.walk target (rel.map .down) := by
              have hlocated := h.mono (kept_copy hc).1 (kept_copy hc).2
              exact FileTree.locate_of_prefix hlocated.target hle htokens
            have hstat := stat_of_walk htarget'
            rw [FileTree.entry_create_self hcreate] at hstat
            rw [if_neg hfault, he]
            dsimp only
            rw [hcreate]
            exact outcomeTree_finish faults hstat rel

theorem kept_copyEntry {pathIn : CText}
    (h : copyEntry faults fromDir toDir pathIn v = .ok v') :
    v'.cwd = v.cwd ∧ v.tree.Extends v'.tree := by
  rw [copyEntry] at h
  split at h
  · rw [← Except.ok.inj h]
    exact ⟨rfl, FileTree.Extends.refl _⟩
  · split at h
    · cases h
    · next v₁ hcopy =>
        have hkept := kept_copy hcopy
        split at h
        · split at h
          · cases h
          · split at h
            · cases h
            · rwa [← Except.ok.inj h]
        · rwa [← Except.ok.inj h]

/-- The iterator enters the places below an entry. -/
theorem listDirectory_entered (h : v.tree.locate v.cwd fromDir = some source)
    (rel : List FileName) : listDirectory listing (extendPath fromDir rel) v =
      (FileTree.entered listing source v.tree rel).map (extendPath fromDir) := by
  have hloc := locate_extendPath h rel
  rw [listDirectory, FileTree.entered]
  by_cases hdir : v.tree.isDir (source ++ rel) = true
  · rw [hloc, FileTree.walk_names_of_isDir hdir, if_pos hdir, List.map_map]
    dsimp only
    rw [if_pos hdir]
    congr 1
    funext name
    exact (extendPath_append fromDir rel name).symm
  · rw [if_neg hdir, List.map_nil, hloc]
    cases hwalk : v.tree.walk source (rel.map .down) with
    | none => rfl
    | some loc =>
        rw [FileTree.walk_names_eq hwalk]
        dsimp only
        rw [if_neg hdir]

/-- What the loop returns, with its tree: 0 at the end, and 1 after an error. -/
def loopOutcome (r : ℤ × FileView C) : Except (FileTree FileName C) (FileTree FileName C) :=
  if r.1 = 0 then .ok r.2.tree else .error r.2.tree

/-- The loop over the paths is the walk over the places of the tree. -/
theorem copyEntries_tree (h : Located fromDir toDir source target v) (fuel : ℕ)
    (pending : List (List FileName)) :
    (copyEntries listing faults fromDir toDir fuel (pending.map (extendPath fromDir)) v).map
        loopOutcome =
      FileTree.copyAll listing (faults.below fromDir) source target fuel pending v.tree := by
  induction fuel generalizing pending v with
  | zero =>
      cases pending with
      | nil => rfl
      | cons rel pending => rfl
  | succ fuel ih =>
      cases pending with
      | nil => rfl
      | cons rel pending =>
          have hone := copyEntry_tree faults h rel
          rw [List.map_cons, copyEntries, FileTree.copyAll, ← hone]
          cases hentry : copyEntry faults fromDir toDir (extendPath fromDir rel) v with
          | error v' => rfl
          | ok v' =>
              have hkept := kept_copyEntry hentry
              have hlocated := h.mono hkept.1 hkept.2
              dsimp only [outcomeTree]
              rw [← ih hlocated, List.map_append,
                listDirectory_entered hlocated.source rel]

theorem kept_copyEntries {fuel : ℕ} {pending : List CText}
    (h : copyEntries listing faults fromDir toDir fuel pending v = some (0, v')) :
    v'.cwd = v.cwd ∧ v.tree.Extends v'.tree := by
  induction fuel generalizing pending v with
  | zero =>
      cases pending with
      | nil =>
          cases h
          exact ⟨rfl, FileTree.Extends.refl _⟩
      | cons pathIn pending => cases h
  | succ fuel ih =>
      cases pending with
      | nil =>
          cases h
          exact ⟨rfl, FileTree.Extends.refl _⟩
      | cons pathIn pending =>
          rw [copyEntries] at h
          split at h
          · cases h
          · next v₁ hentry =>
              obtain ⟨hcwd, hext⟩ := kept_copyEntry hentry
              obtain ⟨hcwd', hext'⟩ := ih h
              exact ⟨hcwd'.trans hcwd, hext.trans hext'⟩

end Refinement

end Grvy.Utils
