import Grvy.Lib.FileTree
import Grvy.Lib.PathName
import Mathlib.Data.List.DropRight

/-!
Paths as text, and what a process does with them: it looks at what a path leads to
and makes directories, from the root or from its working directory.

The components of a path are its parts between slashes. `.` and `..` are steps, and
every other component is the name of a file. A slash at the end of a path is not
looked at.
-/

namespace Grvy.Lib

/-- The text of a C string, without the null character that ends it. -/
abbrev CText := List Char

def IsFileName (c : CText) : Prop := c ≠ [] ∧ '/' ∉ c ∧ c ≠ ['.'] ∧ c ≠ ['.', '.']

instance (c : CText) : Decidable (IsFileName c) := inferInstanceAs (Decidable (_ ∧ _))

abbrev FileName := { c : CText // IsFileName c }

/-- The components of a path. -/
def tokens (path : CText) : List CText := (path.splitOnP (· = '/')).filter (· ≠ [])

def Step.ofToken (c : CText) : Step FileName :=
  if h : IsFileName c then .down ⟨c, h⟩ else if c = ['.', '.'] then .up else .stay

def pathSteps (path : CText) : List (Step FileName) := (tokens path).map Step.ofToken

def isAbsolute (path : CText) : Bool := path.head? = some '/'

/-- A name in a directory. A separator is put between them if there is none. -/
def appendPath (path name : CText) : CText :=
  if name = [] then path
  else if isAbsolute name || path = [] || path.getLast? = some '/' then path ++ name
  else path ++ '/' :: name

/-- What a process sees of the files: the tree and its working directory. -/
structure FileView (C : Type) where
  tree : FileTree FileName C
  cwd : List FileName
  isDir_cwd : tree.isDir cwd = true

/-! ### Components -/

@[simp] theorem tokens_nil : tokens [] = [] := rfl

@[simp] theorem tokens_append_slash (path more : CText) :
    tokens (path ++ '/' :: more) = tokens path ++ tokens more := by
  rw [tokens, List.splitOnP_append_cons _ _ (by simp), List.filter_append]
  rfl

@[simp] theorem tokens_slash (path : CText) : tokens ('/' :: path) = tokens path :=
  tokens_append_slash [] path

theorem tokens_of_no_slash {c : CText} (hne : c ≠ []) (hslash : '/' ∉ c) : tokens c = [c] := by
  have hsplit : c.splitOnP (· = '/') = [c] :=
    List.splitOnP_eq_singleton fun x hx => decide_eq_false fun heq => hslash (heq ▸ hx)
  rw [tokens, hsplit]
  simp [hne]

theorem of_mem_tokens {c path : CText} (hc : c ∈ tokens path) : c ≠ [] ∧ '/' ∉ c := by
  obtain ⟨hmem, hne⟩ := List.mem_filter.mp hc
  refine ⟨of_decide_eq_true hne, fun hslash => ?_⟩
  exact of_decide_eq_false (mem_of_mem_splitOnP _ _ c hmem _ hslash).2 rfl

theorem tokens_eq_self {c path : CText} (hc : c ∈ tokens path) : tokens c = [c] :=
  tokens_of_no_slash (of_mem_tokens hc).1 (of_mem_tokens hc).2

/-- What follows a slash, or nothing, has its own components. -/
theorem tokens_append {path : CText} (hend : path = [] ∨ path.getLast? = some '/')
    (more : CText) : tokens (path ++ more) = tokens path ++ tokens more := by
  rcases hend with rfl | hlast
  · rfl
  · have hpath := List.dropLast_append_getLast? '/' hlast
    rw [← hpath, List.append_assoc, List.singleton_append, tokens_append_slash,
      tokens_append_slash, tokens_nil, List.append_nil]

theorem tokens_appendPath (path name : CText) :
    tokens (appendPath path name) = tokens path ++ tokens name := by
  rw [appendPath]
  split
  · next hname => simp [hname]
  · split
    · next hjoin =>
        simp only [Bool.or_eq_true, decide_eq_true_eq] at hjoin
        rcases hjoin with (habs | hpath) | hlast
        · cases name with
          | nil => cases of_decide_eq_true habs
          | cons x name =>
              obtain rfl : x = '/' := Option.some.inj (of_decide_eq_true habs)
              simp
        · exact tokens_append (.inl hpath) name
        · exact tokens_append (.inr hlast) name
    · exact tokens_append_slash path name

theorem isAbsolute_append {path : CText} (hpath : path ≠ []) (more : CText) :
    isAbsolute (path ++ more) = isAbsolute path := by
  rw [isAbsolute, isAbsolute, List.head?_append_of_ne_nil path hpath]

/-- A name in a directory begins with the directory. -/
theorem prefix_appendPath (path name : CText) : path <+: appendPath path name := by
  rw [appendPath]
  split
  · exact List.prefix_refl path
  · split
    · exact List.prefix_append path name
    · exact List.prefix_append path ('/' :: name)

theorem isAbsolute_of_prefix {path path' : CText} (hpath : path ≠ []) (h : path <+: path') :
    isAbsolute path' = isAbsolute path := by
  obtain ⟨more, rfl⟩ := h
  exact isAbsolute_append hpath more

/-- A relative path has a component. -/
theorem tokens_ne_nil {path : CText} (hpath : path ≠ []) (hrel : isAbsolute path = false) :
    tokens path ≠ [] := by
  cases path with
  | nil => exact absurd rfl hpath
  | cons x path =>
      have hx : x ≠ '/' := fun heq => of_decide_eq_false hrel (congrArg some heq)
      obtain ⟨first, rest, hsplit⟩ := List.exists_cons_of_ne_nil
        (List.splitOnP_ne_nil (· = '/') path)
      rw [tokens, List.splitOnP_cons_eq_if_modifyHead, if_neg (by simpa using hx), hsplit,
        List.modifyHead_cons, List.filter_cons_of_pos (by simp)]
      exact List.cons_ne_nil _ _

@[simp] theorem Step.ofToken_val (name : FileName) : Step.ofToken name.val = .down name := by
  rw [Step.ofToken, dif_pos name.property]

@[simp] theorem tokens_val (name : FileName) : tokens name.val = [name.val] :=
  tokens_of_no_slash name.property.1 name.property.2.1

/-! ### Looking and making -/

section Files

variable {C : Type}

/-- Where a path starts. -/
def pathStart (cwd : List FileName) (path : CText) : List FileName :=
  if isAbsolute path then [] else cwd

namespace FileTree

variable (t : FileTree FileName C) (cwd : List FileName) (path : CText)

/-- The location a path leads to. The empty path leads nowhere. -/
def locate : Option (List FileName) :=
  if path = [] then none else t.walk (pathStart cwd path) (pathSteps path)

/-- What is there. -/
def stat : Option (Entry C) := (t.locate cwd path).bind t.entry

def pathExists : Bool := (t.stat cwd path).isSome

def isDirectory : Bool :=
  match t.stat cwd path with
  | some .dir => true
  | _ => false

variable {t cwd path}

theorem isDirectory_iff :
    t.isDirectory cwd path = true ↔ ∃ loc, t.locate cwd path = some loc ∧ t.isDir loc = true := by
  rw [isDirectory, stat]
  cases hloc : t.locate cwd path with
  | none => simp
  | some loc =>
      rw [Option.bind_some]
      constructor
      · intro h
        exact ⟨loc, rfl, by rwa [isDir]⟩
      · rintro ⟨loc', heq, hdir⟩
        rw [← Option.some.inj heq, isDir_iff] at hdir
        rw [hdir]

theorem ne_nil_of_locate {loc : List FileName} (h : t.locate cwd path = some loc) :
    path ≠ [] := by
  rintro rfl
  cases h

theorem locate_of_ne_nil (hpath : path ≠ []) :
    t.locate cwd path = t.walk (pathStart cwd path) (pathSteps path) := if_neg hpath

/-- A free location that a path leads to is in a directory. -/
theorem isDir_dropLast_of_locate {loc : List FileName} (h : t.locate cwd path = some loc)
    (hfree : t.entry loc = none) : t.isDir loc.dropLast = true := by
  have hpath := ne_nil_of_locate h
  rw [locate_of_ne_nil hpath] at h
  refine isDir_dropLast_of_walk ?_ h hfree
  cases habs : isAbsolute path with
  | true =>
      rw [pathStart, if_pos habs, t.root]
      exact Option.some_ne_none _
  | false =>
      rw [pathStart, habs, if_neg Bool.false_ne_true] at h ⊢
      have hsteps : pathSteps path ≠ [] := by
        rw [pathSteps, Ne, List.map_eq_nil_iff]
        exact tokens_ne_nil hpath habs
      obtain ⟨step, steps, hcons⟩ := List.exists_cons_of_ne_nil hsteps
      rw [hcons, walk] at h
      split at h
      · next hdir =>
          rw [isDir_iff.mp hdir]
          exact Option.some_ne_none _
      · cases h

theorem Extends.locate {t' : FileTree FileName C} (h : t.Extends t') {loc : List FileName}
    (hloc : t.locate cwd path = some loc) : t'.locate cwd path = some loc := by
  have hpath := ne_nil_of_locate hloc
  rw [locate_of_ne_nil hpath] at hloc ⊢
  exact h.walk hloc

/-- A longer path goes on where the path before it has led. -/
theorem locate_of_prefix {path' : CText} {names : List FileName} {loc : List FileName}
    (hloc : t.locate cwd path = some loc) (hle : path <+: path')
    (htokens : tokens path' = tokens path ++ names.map Subtype.val) :
    t.locate cwd path' = t.walk loc (names.map .down) := by
  have hpath := ne_nil_of_locate hloc
  have hpath' : path' ≠ [] := by
    rintro rfl
    exact hpath (List.prefix_nil.mp hle)
  rw [locate_of_ne_nil hpath] at hloc
  rw [locate_of_ne_nil hpath', pathStart, isAbsolute_of_prefix hpath hle, ← pathStart,
    pathSteps, htokens, List.map_append, walk_append, ← pathSteps, hloc, Option.bind_some,
    List.map_map]
  congr 2
  funext name
  exact Step.ofToken_val name

end FileTree

namespace FileView

/-- A new entry. -/
def create (v : FileView C) (loc : List FileName) (e : Entry C) : Option (FileView C) :=
  match h : v.tree.create loc e with
  | none => none
  | some t =>
      some { v with tree := t, isDir_cwd := (FileTree.extends_create h).isDir v.isDir_cwd }

/-- `mkdir`. -/
def mkdir (v : FileView C) (path : CText) : Option (FileView C) :=
  (v.tree.locate v.cwd path).bind fun loc => v.create loc .dir

theorem create_eq_some {v v' : FileView C} {loc : List FileName} {e : Entry C} :
    v.create loc e = some v' ↔ v.tree.create loc e = some v'.tree ∧ v'.cwd = v.cwd := by
  rw [create]
  split
  · next h => simp [h]
  · next t h =>
      constructor
      · intro heq
        obtain rfl := Option.some.inj heq
        exact ⟨h, rfl⟩
      · rintro ⟨htree, hcwd⟩
        cases v'
        obtain rfl := Option.some.inj (h.symm.trans htree)
        cases hcwd
        rfl

theorem create_eq_none {v : FileView C} {loc : List FileName} {e : Entry C} :
    v.create loc e = none ↔ v.tree.create loc e = none := by
  rw [create]
  split
  · next h => simp [h]
  · next t h => simp [h]

@[simp] theorem map_tree_create (v : FileView C) (loc : List FileName) (e : Entry C) :
    (v.create loc e).map FileView.tree = v.tree.create loc e := by
  cases h : v.create loc e with
  | none => exact (create_eq_none.mp h).symm
  | some v' => exact (create_eq_some.mp h).1.symm

end FileView

end Files

end Grvy.Lib
