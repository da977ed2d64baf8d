import Grvy.Lib.PathText

/-!
`grvy_check_file_path`: the directories above a file are made before it is opened.

The path's parent is taken apart at its slashes, and the parts are put together
again in a second buffer, one more each time, each prefix being checked and made.
The first part and the rest take different ways. At most `MAX_DEPTH` parts are
allowed, the first one not being counted by the loop but by the test after it.
-/

namespace Grvy.Utils

open Grvy.Lib

def MAX_DEPTH : ℕ := 50

/-- The C library's `dirname`. -/
def dirname (path : CText) : CText :=
  let name := path.rdropWhile (· = '/')
  if name = [] then
    if path = [] then ['.'] else ['/']
  else
    let parent := name.rdropWhile (· ≠ '/')
    if parent = [] then ['.']
    else
      let trimmed := parent.rdropWhile (· = '/')
      if trimmed = [] then ['/'] else trimmed

section Model

variable {C : Type}

/-- `_GRVY_CheckDir`. -/
def checkDir (dirname : CText) (v : FileView C) : ℤ × FileView C :=
  match v.tree.stat v.cwd dirname with
  | none =>
      match v.mkdir dirname with
      | none => (-1, v)
      | some v' => (0, v')
  | some (.file _) => (-1, v)
  | some .dir => (0, v)

/-- What follows the loop over the tokens. -/
def checkDepth (depth : ℕ) (v : FileView C) : ℤ × FileView C :=
  if depth ≥ MAX_DEPTH then (-1, v) else (0, v)

/-- The loop over the tokens that are left after the first. -/
def checkRemaining (dirstring : CText) (depth : ℕ) :
    List CText → FileView C → ℤ × FileView C
  | [], v => checkDepth depth v
  | token :: rest, v =>
      if depth < MAX_DEPTH then
        let dirstring' := dirstring ++ '/' :: token
        let r := checkDir dirstring' v
        if r.1 ≠ 0 then (-1, r.2) else checkRemaining dirstring' (depth + 1) rest r.2
      else checkDepth depth v

def checkFilePath (pathname : CText) (v : FileView C) : ℤ × FileView C :=
  let parents := dirname pathname
  if parents = ['.'] then (0, v)
  else
    let leadingChar := if isAbsolute parents then ['/'] else []
    match tokens parents with
    | [] => (0, v)
    | token :: rest =>
        let dirstring := leadingChar ++ token
        let r := checkDir dirstring v
        if r.1 ≠ 0 then (-1, r.2) else checkRemaining dirstring 0 rest r.2

end Model

/-! ### The prefixes of a path -/

/-- Where the steps of a path lead, one after the other. -/
def prefixLocs {α : Type} : List α → List (Step α) → List (List α)
  | _, [] => []
  | loc, step :: steps => step.apply loc :: prefixLocs (step.apply loc) steps

/-- The components of the parent of a path. A name without a slash has none. -/
def parentTokens (pathname : CText) : List CText :=
  if '/' ∉ pathname then [] else tokens (dirname pathname)

/-- The locations of the prefixes of the parent of a path. -/
def parentLocs (cwd : List FileName) (pathname : CText) : List (List FileName) :=
  prefixLocs (pathStart cwd (dirname pathname)) ((parentTokens pathname).map Step.ofToken)

section Spec

variable {C : Type}

/-- None of the locations is a file. -/
def NoFile (v : FileView C) (locs : List (List FileName)) : Prop :=
  ∀ loc ∈ locs, ∀ c, v.tree.entry loc ≠ some (.file c)

/-- All that happens is that some of the locations become directories. -/
structure OnlyMakes (locs : List (List FileName)) (v v' : FileView C) : Prop where
  cwd : v'.cwd = v.cwd
  kept : v.tree.Extends v'.tree
  made : ∀ loc, v'.tree.entry loc ≠ v.tree.entry loc →
    loc ∈ locs ∧ v'.tree.entry loc = some .dir

theorem OnlyMakes.refl (locs : List (List FileName)) (v : FileView C) : OnlyMakes locs v v where
  cwd := rfl
  kept := FileTree.Extends.refl v.tree
  made := fun _ hne => absurd rfl hne

theorem OnlyMakes.trans {locs locs' : List (List FileName)} {v v₁ v₂ : FileView C}
    (h : OnlyMakes locs v v₁) (h' : OnlyMakes locs' v₁ v₂) : OnlyMakes (locs ++ locs') v v₂ where
  cwd := h'.cwd.trans h.cwd
  kept := h.kept.trans h'.kept
  made := by
    intro loc hne
    by_cases hfirst : v₁.tree.entry loc = v.tree.entry loc
    · rw [← hfirst] at hne
      obtain ⟨hmem, hdir⟩ := h'.made loc hne
      exact ⟨List.mem_append_right locs hmem, hdir⟩
    · obtain ⟨hmem, hdir⟩ := h.made loc hfirst
      exact ⟨List.mem_append_left locs' hmem, h'.kept loc .dir hdir⟩

theorem OnlyMakes.noFile_iff {locs : List (List FileName)} {v v' : FileView C}
    (h : OnlyMakes locs v v') (locs' : List (List FileName)) :
    NoFile v' locs' ↔ NoFile v locs' := by
  have hfile : ∀ loc c, v'.tree.entry loc = some (.file c) ↔ v.tree.entry loc = some (.file c) := by
    intro loc c
    constructor
    · intro hc
      by_contra hne
      have hdir := (h.made loc fun heq => hne (heq ▸ hc)).2
      rw [hc] at hdir
      cases hdir
    · exact h.kept loc (.file c)
  simp only [NoFile, Ne, hfile]

/-- What a check of some locations does, for paths that are `short` enough. -/
structure Prepares (locs : List (List FileName)) (short : Prop) (v : FileView C)
    (r : ℤ × FileView C) : Prop where
  status : r.1 = 0 ↔ short ∧ NoFile v locs
  isDir : r.1 = 0 → ∀ loc ∈ locs, r.2.tree.isDir loc = true
  makes : OnlyMakes locs v r.2
  same : (∀ loc ∈ locs, v.tree.isDir loc = true) → r.2 = v

theorem noFile_cons {v : FileView C} {loc : List FileName} {locs : List (List FileName)} :
    NoFile v (loc :: locs) ↔ NoFile v [loc] ∧ NoFile v locs := by
  simp only [NoFile, List.mem_cons, forall_eq_or_imp, List.not_mem_nil, false_imp_iff,
    forall_const, and_true]

theorem Prepares.present {locs : List (List FileName)} {short : Prop} {v : FileView C}
    (hdirs : ∀ loc ∈ locs, v.tree.isDir loc = true) (hshort : short) :
    Prepares locs short v (0, v) where
  status := by
    refine ⟨fun _ => ⟨hshort, fun loc hloc c hc => ?_⟩, fun _ => rfl⟩
    rw [FileTree.isDir_iff.mp (hdirs loc hloc)] at hc
    cases hc
  isDir := fun _ => hdirs
  makes := OnlyMakes.refl locs v
  same := fun _ => rfl

/-- A path that is too long is refused, whatever has been made of it. -/
theorem Prepares.tooLong (locs : List (List FileName)) {short : Prop} (hshort : ¬ short)
    (v : FileView C) : Prepares locs short v (-1, v) where
  status := ⟨nofun, fun h => absurd h.1 hshort⟩
  isDir := nofun
  makes := OnlyMakes.refl locs v
  same := fun _ => rfl

theorem Prepares.cons {loc : List FileName} {locs : List (List FileName)} {short : Prop}
    {v : FileView C} {r r' : ℤ × FileView C} (h : Prepares [loc] True v r) (hok : r.1 = 0)
    (h' : Prepares locs short r.2 r') : Prepares (loc :: locs) short v r' where
  status := by
    rw [h'.status, h.makes.noFile_iff, noFile_cons]
    have hfirst := (h.status.mp hok).2
    exact ⟨fun hr => ⟨hr.1, hfirst, hr.2⟩, fun hr => ⟨hr.1, hr.2.2⟩⟩
  isDir := by
    intro hok' l hl
    rcases List.mem_cons.mp hl with rfl | hl
    · exact h'.makes.kept.isDir (h.isDir hok l List.mem_cons_self)
    · exact h'.isDir hok' l hl
  makes := h.makes.trans h'.makes
  same := by
    intro hdirs
    have hfirst : r.2 = v := h.same fun l hl => by
      rw [List.mem_singleton.mp hl]
      exact hdirs loc List.mem_cons_self
    rw [← hfirst] at hdirs ⊢
    exact h'.same fun l hl => hdirs l (List.mem_cons_of_mem loc hl)

theorem Prepares.fail {loc : List FileName} (locs : List (List FileName)) (short : Prop)
    {v : FileView C} {r : ℤ × FileView C} (h : Prepares [loc] True v r) (hfail : r.1 ≠ 0) :
    Prepares (loc :: locs) short v (-1, r.2) where
  status := by
    refine ⟨nofun, fun hr => absurd ?_ hfail⟩
    exact h.status.mpr ⟨trivial, (noFile_cons.mp hr.2).1⟩
  isDir := nofun
  makes :=
    { cwd := h.makes.cwd
      kept := h.makes.kept
      made := fun l hne => by
        obtain ⟨hmem, hdir⟩ := h.makes.made l hne
        exact ⟨List.mem_cons.mpr (.inl (List.mem_singleton.mp hmem)), hdir⟩ }
  same := fun hdirs => h.same fun l hl => by
    rw [List.mem_singleton.mp hl]
    exact hdirs loc List.mem_cons_self

theorem OnlyMakes.create {loc : List FileName} {v v' : FileView C}
    (h : v.create loc .dir = some v') : OnlyMakes [loc] v v' := by
  obtain ⟨htree, hcwd⟩ := FileView.create_eq_some.mp h
  refine ⟨hcwd, FileTree.extends_create htree, fun l hne => ?_⟩
  have hl : l = loc := by
    by_contra hl
    exact hne (FileTree.entry_create_of_ne htree hl)
  rw [hl]
  exact ⟨List.mem_singleton_self loc, FileTree.entry_create_self htree⟩

/-- A directory is made where nothing was. -/
theorem Prepares.create {loc : List FileName} {v v' : FileView C}
    (he : v.tree.entry loc = none) (h : v.create loc .dir = some v') :
    Prepares [loc] True v (0, v') where
  status := ⟨fun _ => ⟨trivial, by simp [NoFile, he]⟩, fun _ => rfl⟩
  isDir := by
    intro _ l hl
    rw [List.mem_singleton.mp hl, FileTree.isDir_iff]
    exact FileTree.entry_create_self (FileView.create_eq_some.mp h).1
  makes := OnlyMakes.create h
  same := by
    intro hdirs
    have hdir := hdirs loc List.mem_cons_self
    rw [FileTree.isDir_iff, he] at hdir
    cases hdir

/-- A file is refused. -/
theorem Prepares.file {loc : List FileName} {v : FileView C} {c : C}
    (he : v.tree.entry loc = some (.file c)) : Prepares [loc] True v (-1, v) where
  status := ⟨nofun, fun h => absurd he (h.2 loc List.mem_cons_self c)⟩
  isDir := nofun
  makes := OnlyMakes.refl [loc] v
  same := fun _ => rfl

/-! ### The loop -/

theorem checkDir_prepares {path : CText} {v : FileView C} {loc : List FileName}
    (hloc : v.tree.locate v.cwd path = some loc) :
    Prepares [loc] True v (checkDir path v) := by
  have hstat : v.tree.stat v.cwd path = v.tree.entry loc := by
    rw [FileTree.stat, hloc, Option.bind_some]
  rw [checkDir, hstat]
  cases he : v.tree.entry loc with
  | none =>
      -- the directory is made, as the one above it is there
      have hcreate : v.tree.create loc .dir ≠ none := by
        rw [Ne, FileTree.create_eq_none_iff, not_not]
        exact ⟨FileTree.isDir_dropLast_of_locate hloc he, he⟩
      obtain ⟨v', hv'⟩ := Option.ne_none_iff_exists'.mp
        (fun hnone => hcreate (FileView.create_eq_none.mp hnone))
      have hmkdir : v.mkdir path = some v' := by
        rw [FileView.mkdir, hloc, Option.bind_some, hv']
      simp only [hmkdir]
      exact Prepares.create he hv'
  | some e =>
      cases e with
      | dir =>
          apply Prepares.present _ trivial
          intro l hl
          rw [List.mem_singleton.mp hl]
          exact FileTree.isDir_iff.mpr he
      | file c => exact Prepares.file he

/-- One component more leads one step on from a directory. -/
theorem locate_step {path token : CText} {v : FileView C} {loc : List FileName}
    (hloc : v.tree.locate v.cwd path = some loc) (hdir : v.tree.isDir loc = true)
    (htoken : tokens token = [token]) :
    v.tree.locate v.cwd (path ++ '/' :: token) = some ((Step.ofToken token).apply loc) := by
  have hpath := FileTree.ne_nil_of_locate hloc
  rw [FileTree.locate_of_ne_nil hpath] at hloc
  rw [FileTree.locate_of_ne_nil (by simp), pathStart, isAbsolute_append hpath, ← pathStart,
    pathSteps, tokens_append_slash, htoken, List.map_append, FileTree.walk_append, ← pathSteps,
    hloc, Option.bind_some]
  simp only [List.map_cons, List.map_nil, FileTree.walk, hdir, if_true]

theorem checkRemaining_prepares (rest : List CText) (hrest : ∀ token ∈ rest, tokens token = [token])
    (dirstring : CText) (depth : ℕ) {v : FileView C} {loc : List FileName}
    (hloc : v.tree.locate v.cwd dirstring = some loc) (hdir : v.tree.isDir loc = true) :
    Prepares (prefixLocs loc (rest.map Step.ofToken)) (depth + rest.length < MAX_DEPTH) v
      (checkRemaining dirstring depth rest v) := by
  induction rest generalizing dirstring depth v loc with
  | nil =>
      rw [checkRemaining, checkDepth]
      split
      · next hdepth => exact Prepares.tooLong _ (Nat.not_lt.mpr hdepth) v
      · next hdepth => exact Prepares.present nofun (Nat.lt_of_not_ge hdepth)
  | cons token rest ih =>
      rw [checkRemaining]
      split
      · have hfirst := checkDir_prepares
          (locate_step hloc hdir (hrest token List.mem_cons_self))
        dsimp only
        split
        · next hfail => exact hfirst.fail _ _ hfail
        · next hok =>
            have hok := not_not.mp hok
            have hloc' := hfirst.makes.kept.locate
              (locate_step hloc hdir (hrest token List.mem_cons_self))
            rw [← hfirst.makes.cwd] at hloc'
            have hrec := ih (fun t ht => hrest t (List.mem_cons_of_mem token ht))
              (dirstring ++ '/' :: token) (depth + 1) hloc' (hfirst.isDir hok _ List.mem_cons_self)
            have hlen : depth + 1 + rest.length = depth + (token :: rest).length := by
              rw [List.length_cons]
              omega
            rw [hlen] at hrec
            exact hfirst.cons hok hrec
      · next hdepth =>
          rw [checkDepth, if_pos (Nat.not_lt.mp hdepth)]
          exact Prepares.tooLong _ (by omega) v

/-- The first component, after a slash if the path is absolute. -/
theorem locate_first {parents token : CText} (v : FileView C) (htoken : token ∈ tokens parents) :
    v.tree.locate v.cwd ((if isAbsolute parents then ['/'] else []) ++ token) =
      some ((Step.ofToken token).apply (pathStart v.cwd parents)) := by
  obtain ⟨hne, hslash⟩ := of_mem_tokens htoken
  have hstart : v.tree.isDir (pathStart v.cwd parents) = true := by
    rw [pathStart]
    split
    · exact FileTree.isDir_iff.mpr v.tree.root
    · exact v.isDir_cwd
  have htokens : tokens ((if isAbsolute parents then ['/'] else []) ++ token) = [token] := by
    split
    · simp [tokens_eq_self htoken]
    · exact tokens_eq_self htoken
  have habs : isAbsolute ((if isAbsolute parents then ['/'] else []) ++ token) =
      isAbsolute parents := by
    split
    · next h => rw [h, List.singleton_append, isAbsolute, List.head?_cons, decide_eq_true rfl]
    · next h =>
        rw [(Bool.not_eq_true _).mp h, List.nil_append, isAbsolute, decide_eq_false_iff_not]
        intro hhead
        exact hslash (List.mem_of_mem_head? hhead)
  rw [FileTree.locate_of_ne_nil (List.append_ne_nil_of_right_ne_nil _ hne), pathStart, habs,
    ← pathStart, pathSteps, htokens]
  simp only [List.map_cons, List.map_nil, FileTree.walk, hstart, if_true]

theorem dirname_of_no_slash {path : CText} (hslash : '/' ∉ path) : dirname path = ['.'] := by
  have hname : path.rdropWhile (· = '/') = path := by
    rw [List.rdropWhile_eq_self_iff]
    intro hne hlast
    exact hslash (of_decide_eq_true hlast ▸ List.getLast_mem hne)
  have hparent : path.rdropWhile (· ≠ '/') = [] := by
    rw [List.rdropWhile_eq_nil_iff]
    intro x hx
    exact decide_eq_true fun heq => hslash (heq ▸ hx)
  simp only [dirname, hname, hparent]
  split
  · rfl
  · rw [if_pos trivial]

/-- The components of the working directory, as a parent. -/
theorem parentTokens_of_dot {pathname : CText} (hdot : dirname pathname = ['.']) :
    parentTokens pathname = [] ∨ parentTokens pathname = [['.']] := by
  rw [parentTokens, hdot]
  split
  · exact .inl rfl
  · exact .inr rfl

theorem checkFilePath_prepares (pathname : CText) (v : FileView C) :
    Prepares (parentLocs v.cwd pathname) ((parentTokens pathname).length ≤ MAX_DEPTH) v
      (checkFilePath pathname v) := by
  rw [checkFilePath, parentLocs]
  by_cases hdot : dirname pathname = ['.']
  · -- the parent is the working directory
    rw [if_pos hdot, hdot]
    rcases parentTokens_of_dot hdot with htokens | htokens
    · rw [htokens]
      exact Prepares.present nofun (Nat.zero_le MAX_DEPTH)
    · rw [htokens]
      refine Prepares.present (fun loc hloc => ?_) (by decide)
      rw [List.mem_singleton.mp hloc]
      exact v.isDir_cwd
  · have hslash : ¬ '/' ∉ pathname := fun hslash => hdot (dirname_of_no_slash hslash)
    rw [if_neg hdot, parentTokens, if_neg hslash]
    cases htokens : tokens (dirname pathname) with
    | nil => exact Prepares.present nofun (Nat.zero_le MAX_DEPTH)
    | cons token rest =>
        have hmem : ∀ t ∈ token :: rest, tokens t = [t] := fun t ht =>
          tokens_eq_self (htokens ▸ ht)
        have hloc := locate_first v (htokens ▸ List.mem_cons_self : token ∈ _)
        dsimp only
        generalize (if isAbsolute (dirname pathname) = true then ['/'] else []) ++ token =
          dirstring at hloc ⊢
        have hfirst := checkDir_prepares hloc
        split
        · next hfail => exact hfirst.fail _ _ hfail
        · next hok =>
            have hok := not_not.mp hok
            have hloc' : (checkDir dirstring v).2.tree.locate (checkDir dirstring v).2.cwd
                dirstring = some ((Step.ofToken token).apply
                  (pathStart v.cwd (dirname pathname))) := by
              rw [hfirst.makes.cwd]
              exact hfirst.makes.kept.locate hloc
            have hrec := checkRemaining_prepares rest
              (fun t ht => hmem t (List.mem_cons_of_mem token ht)) _ 0 hloc'
              (hfirst.isDir hok _ List.mem_cons_self)
            have hlen : (0 + rest.length < MAX_DEPTH) = ((token :: rest).length ≤ MAX_DEPTH) := by
              rw [Nat.zero_add, List.length_cons, Nat.succ_le_iff]
            rw [hlen] at hrec
            exact hfirst.cons hok hrec

/-- The call succeeds exactly when the path is not too deep and no file is in its way. It
makes what is missing of the prefixes, and nothing else, and can be repeated. -/
theorem checkFilePath_makes_parents (pathname : CText) (v : FileView C) :
    ((checkFilePath pathname v).1 = 0 ↔
        (parentTokens pathname).length ≤ 50 ∧ NoFile v (parentLocs v.cwd pathname)) ∧
      ((checkFilePath pathname v).1 = 0 →
        ∀ loc ∈ parentLocs v.cwd pathname, (checkFilePath pathname v).2.tree.isDir loc = true) ∧
      OnlyMakes (parentLocs v.cwd pathname) v (checkFilePath pathname v).2 ∧
      ((checkFilePath pathname v).1 = 0 →
        checkFilePath pathname (checkFilePath pathname v).2 =
          (0, (checkFilePath pathname v).2)) := by
  have h := checkFilePath_prepares pathname v
  refine ⟨h.status, h.isDir, h.makes, fun hok => ?_⟩
  have hagain := checkFilePath_prepares pathname (checkFilePath pathname v).2
  rw [h.makes.cwd] at hagain
  refine Prod.ext (hagain.status.mpr ?_) (hagain.same (h.isDir hok))
  exact ⟨(h.status.mp hok).1, (h.makes.noFile_iff _).mpr (h.status.mp hok).2⟩

end Spec

end Grvy.Utils
