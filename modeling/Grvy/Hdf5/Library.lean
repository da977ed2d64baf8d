import Mathlib.Algebra.Ring.Int.Defs
import Grvy.Lib.HandleTable
import Grvy.Lib.PathName

/-!
What `grvy_hdf5.cpp` and `grvy_timer.cpp` rely on of HDF5: the contents of a file
are a tree of named groups, datasets and attributes, what is opened or created
gets a fresh handle, and an operation on a handle that is not open fails and
changes nothing.

Which handle is issued is up to an `Allocator`. Attribute values are numbers of
one type or texts. Types, dataspaces and comments are left out.
-/

namespace Grvy.Hdf5

open Std (TreeMap)
open Grvy.Lib

/-! ### Contents of a file -/

/-- The value of an attribute. Whether it is a number is settled when the attribute
is created. -/
inductive Value (T : Type)
  | num (x : T)
  | text (s : String)
  deriving DecidableEq

def Value.isNum {T : Type} : Value T → Bool
  | .num _ => true
  | .text _ => false

/-- The number that is held. -/
def Value.number {T : Type} : Value T → Option T
  | .num x => some x
  | .text _ => none

/-- The tree of named objects in a file: the groups besides the root, the datasets
and the attributes of each group. -/
structure Contents (T D : Type) where
  groups : List Path
  groups_nodup : groups.Nodup
  datasets : Path → Option D
  attributes : Path → String → Option (Value T)

namespace Contents

variable {T D : Type}

def empty : Contents T D where
  groups := []
  groups_nodup := List.nodup_nil
  datasets _ := none
  attributes _ _ := none

def hasGroup (path : Path) (c : Contents T D) : Bool := path = [] || path ∈ c.groups

/-- The groups on the way to `path` that do not exist yet, `path` included. -/
def missing (path : Path) (c : Contents T D) : List Path :=
  path.inits.filter fun p => !c.hasGroup p

/-- Create a group, and those on the way to it. -/
def addGroup (path : Path) (c : Contents T D) : Contents T D :=
  { c with
    groups := c.groups ++ c.missing path
    groups_nodup := by
      refine List.Nodup.append c.groups_nodup ((nodup_inits path).filter _) ?_
      intro p hp hmissing
      have hnot := (List.mem_filter.mp hmissing).2
      simp [hasGroup, hp] at hnot }

/-- The groups directly below `path`, by name. -/
def subgroups (path : Path) (c : Contents T D) : List String :=
  c.groups.filterMap fun p => if p.dropLast = path then p.getLast? else none

def setDataset (path : Path) (data : D) (c : Contents T D) : Contents T D :=
  { c with datasets := Function.update c.datasets path (some data) }

def setAttribute (path : Path) (name : String) (value : Value T) (c : Contents T D) :
    Contents T D :=
  { c with
    attributes := Function.update c.attributes path
      (Function.update (c.attributes path) name (some value)) }

theorem attributes_setAttribute (path : Path) (name : String) (value : Value T)
    (c : Contents T D) (path' : Path) (name' : String) :
    (c.setAttribute path name value).attributes path' name' =
      if path' = path ∧ name' = name then some value else c.attributes path' name' := by
  rw [setAttribute]
  by_cases hpath : path' = path
  · subst hpath
    by_cases hname : name' = name
    · simp [hname]
    · simp [hname]
  · simp [hpath]

@[simp] theorem setDataset_setDataset (path : Path) (data data' : D) (c : Contents T D) :
    (c.setDataset path data).setDataset path data' = c.setDataset path data' := by
  simp [setDataset]

theorem setDataset_self {path : Path} {data : D} {c : Contents T D}
    (hdata : c.datasets path = some data) : c.setDataset path data = c := by
  simp [setDataset, ← hdata]

/-- The value an attribute had is gone when another is set. -/
@[simp] theorem setAttribute_setAttribute (path : Path) (name : String) (value value' : Value T)
    (c : Contents T D) :
    (c.setAttribute path name value).setAttribute path name value' =
      c.setAttribute path name value' := by
  simp [setAttribute]

/-- The groups on the way to a group that is created exist afterwards. -/
theorem hasGroup_addGroup (path : Path) (c : Contents T D) (path' : Path) :
    (c.addGroup path).hasGroup path' = true ↔ c.hasGroup path' = true ∨ path' <+: path := by
  simp only [hasGroup, addGroup, missing, Bool.or_eq_true, decide_eq_true_eq, List.mem_append,
    List.mem_filter, List.mem_inits, Bool.not_eq_true']
  constructor
  · rintro (hroot | hgroup | ⟨hinit, -⟩)
    · exact Or.inl (Or.inl hroot)
    · exact Or.inl (Or.inr hgroup)
    · exact Or.inr hinit
  · rintro ((hroot | hgroup) | hinit)
    · exact Or.inl hroot
    · exact Or.inr (Or.inl hgroup)
    · by_cases hroot : path' = []
      · exact Or.inl hroot
      · by_cases hgroup : path' ∈ c.groups
        · exact Or.inr (Or.inl hgroup)
        · exact Or.inr (Or.inr ⟨hinit, by simp [hroot, hgroup]⟩)

theorem mem_subgroups {path : Path} {name : String} {c : Contents T D} :
    name ∈ c.subgroups path ↔ path ++ [name] ∈ c.groups := by
  rw [subgroups, List.mem_filterMap]
  constructor
  · rintro ⟨p, hp, hname⟩
    split at hname
    · rename_i hparent
      rw [← hparent, List.dropLast_append_getLast? name hname]
      exact hp
    · cases hname
  · intro hgroup
    exact ⟨_, hgroup, by simp⟩

/-- No name is listed twice. -/
theorem nodup_subgroups (path : Path) (c : Contents T D) : (c.subgroups path).Nodup := by
  refine c.groups_nodup.filterMap fun p p' name hname hname' => ?_
  rw [Option.mem_def] at hname hname'
  split at hname
  · split at hname'
    · rename_i hparent hparent'
      rw [← List.dropLast_append_getLast? name hname,
        ← List.dropLast_append_getLast? name hname', hparent, hparent']
    · cases hname'
  · cases hname

end Contents

/-! ### The library -/

/-- A file that is open. -/
structure File where
  name : String
  readonly : Bool
  deriving DecidableEq

/-- What a handle can stand for. -/
inductive Object
  | file (f : File)
  | group (f : File) (path : Path)
  | dataset (f : File) (path : Path)
  | attribute (f : File) (path : Path) (name : String)
  deriving DecidableEq

def Object.isFile : Object → Bool
  | .file _ => true
  | _ => false

def Object.isGroup : Object → Bool
  | .group _ _ => true
  | _ => false

def Object.isDataset : Object → Bool
  | .dataset _ _ => true
  | _ => false

def Object.isAttribute : Object → Bool
  | .attribute _ _ _ => true
  | _ => false

/-- The state of the library and of the files, by name. -/
structure Library (T D : Type) where
  handles : HandleTable Object
  disk : String → Option (Contents T D)

namespace Library

variable {T D : Type} (alloc : Allocator Object)

def contents (f : File) (lib : Library T D) : Contents T D := (lib.disk f.name).getD .empty

def setContents (f : File) (c : Contents T D) (lib : Library T D) : Library T D :=
  { lib with disk := Function.update lib.disk f.name (some c) }

/-- Where names are looked up from a handle: at the root of a file, or at a group. -/
def location (h : ℕ) (lib : Library T D) : Option (File × Path) :=
  match lib.handles.get h with
  | some (.file f) => some (f, [])
  | some (.group f path) => some (f, path)
  | _ => none

/-- Issue a handle of an object. -/
def issue (o : Object) (lib : Library T D) : ℕ × Library T D :=
  (alloc.fresh lib.handles, { lib with handles := lib.handles.opened alloc o })

/-- Issue a handle of an object if there is one. -/
def issueIf (found : Bool) (o : Object) (lib : Library T D) : Option ℕ × Library T D :=
  if found then ((lib.issue alloc o).map some id) else (none, lib)

/-- `H5Fopen`; `permitted` is what the operating system says. -/
def h5fopen (filename : String) (readonly permitted : Bool) (lib : Library T D) :
    Option ℕ × Library T D :=
  lib.issueIf alloc (permitted && (lib.disk filename).isSome)
    (.file { name := filename, readonly := readonly })

/-- `H5Fcreate` -/
def h5fcreate (filename : String) (truncate permitted : Bool) (lib : Library T D) :
    Option ℕ × Library T D :=
  let f : File := { name := filename, readonly := false }
  if permitted && (truncate || (lib.disk filename).isNone) then
    (lib.setContents f .empty).issueIf alloc true (.file f)
  else (none, lib)

def h5fclose (id : ℕ) (lib : Library T D) : Library T D :=
  { lib with handles := lib.handles.close Object.isFile id }

def h5gopen (loc : ℕ) (name : String) (lib : Library T D) : Option ℕ × Library T D :=
  match lib.location loc with
  | none => (none, lib)
  | some (f, path) =>
      lib.issueIf alloc ((lib.contents f).hasGroup (resolve path name))
        (.group f (resolve path name))

/-- `H5Gcreate2`, with the intermediate groups. -/
def h5gcreate (loc : ℕ) (name : String) (lib : Library T D) : Option ℕ × Library T D :=
  match lib.location loc with
  | none => (none, lib)
  | some (f, path) =>
      let p := resolve path name
      let c := lib.contents f
      if f.readonly || c.hasGroup p || p.inits.any (fun q => (c.datasets q).isSome) then (none, lib)
      else (lib.setContents f (c.addGroup p)).issueIf alloc true (.group f p)

def h5gclose (id : ℕ) (lib : Library T D) : Library T D :=
  { lib with handles := lib.handles.close Object.isGroup id }

def h5dopen (loc : ℕ) (name : String) (lib : Library T D) : Option ℕ × Library T D :=
  match lib.location loc with
  | none => (none, lib)
  | some (f, path) =>
      lib.issueIf alloc ((lib.contents f).datasets (resolve path name)).isSome
        (.dataset f (resolve path name))

/-- `H5Dcreate`; `initial` is what the dataset holds before it is written. -/
def h5dcreate (loc : ℕ) (name : String) (initial : D) (lib : Library T D) :
    Option ℕ × Library T D :=
  match lib.location loc with
  | none => (none, lib)
  | some (f, path) =>
      let p := resolve path name
      let c := lib.contents f
      if f.readonly || !c.hasGroup p.dropLast || c.hasGroup p || (c.datasets p).isSome then
        (none, lib)
      else
        (lib.setContents f (c.setDataset p initial)).issueIf alloc true (.dataset f p)

/-- `H5Dwrite` or `H5Dset_extent`, which fail where `change` does. -/
def h5dwrite (id : ℕ) (change : D → Option D) (lib : Library T D) : Option (Library T D) :=
  match lib.handles.get id with
  | some (.dataset f path) =>
      if f.readonly then none
      else
        (((lib.contents f).datasets path).bind change).map fun data =>
          lib.setContents f ((lib.contents f).setDataset path data)
  | _ => none

/-- `H5Dread` of what `select` reads. -/
def h5dread {α : Type} (id : ℕ) (select : D → Option α) (lib : Library T D) : Option α :=
  match lib.handles.get id with
  | some (.dataset f path) => ((lib.contents f).datasets path).bind select
  | _ => none

def h5dclose (id : ℕ) (lib : Library T D) : Library T D :=
  { lib with handles := lib.handles.close Object.isDataset id }

def h5aopen (loc : ℕ) (name : String) (lib : Library T D) : Option ℕ × Library T D :=
  match lib.location loc with
  | none => (none, lib)
  | some (f, path) =>
      lib.issueIf alloc ((lib.contents f).attributes path name).isSome (.attribute f path name)

/-- `H5Acreate`; `initial` is what the attribute holds before it is written. -/
def h5acreate (loc : ℕ) (name : String) (initial : Value T) (lib : Library T D) :
    Option ℕ × Library T D :=
  match lib.location loc with
  | none => (none, lib)
  | some (f, path) =>
      let c := lib.contents f
      if f.readonly || (c.attributes path name).isSome then (none, lib)
      else
        (lib.setContents f (c.setAttribute path name initial)).issueIf alloc true
          (.attribute f path name)

def h5aclose (id : ℕ) (lib : Library T D) : Library T D :=
  { lib with handles := lib.handles.close Object.isAttribute id }

/-- `H5Awrite`, which converts between numbers but not between numbers and text. -/
def h5awrite (id : ℕ) (value : Value T) (lib : Library T D) : Library T D :=
  match lib.handles.get id with
  | some (.attribute f path name) =>
      match (lib.contents f).attributes path name, value with
      | some (.num _), .num _ | some (.text _), .text _ =>
          if f.readonly then lib
          else lib.setContents f ((lib.contents f).setAttribute path name value)
      | _, _ => lib
  | _ => lib

/-- `H5Aread` -/
def h5aread (id : ℕ) (lib : Library T D) : Option (Value T) :=
  match lib.handles.get id with
  | some (.attribute f path name) => (lib.contents f).attributes path name
  | _ => none

/-- Open an object and close it again. -/
def probe (o : Object) (p : Object → Bool) (lib : Library T D) : Library T D :=
  { lib with handles := (lib.handles.opened alloc o).close p (alloc.fresh lib.handles) }

/-! ### What the functions do -/

variable {alloc : Allocator Object} {lib : Library T D} {f : File} {path : Path} {id : ℕ}

@[simp] theorem issueIf_true (o : Object) :
    lib.issueIf alloc true o = (some (alloc.fresh lib.handles), (lib.issue alloc o).2) := rfl

theorem issueIf_some {found : Bool} {o : Object} {lib' : Library T D}
    (h : lib.issueIf alloc found o = (some id, lib')) :
    found = true ∧ id = alloc.fresh lib.handles ∧ lib' = (lib.issue alloc o).2 := by
  cases found with
  | false => cases h
  | true =>
      cases h
      exact ⟨rfl, rfl, rfl⟩

@[simp] theorem issueIf_false (o : Object) : lib.issueIf alloc false o = (none, lib) := rfl

/-- Nothing is open afterwards that was not before. -/
theorem get_probe {o : Object} {p : Object → Bool} (hp : p o = true) (h : ℕ) :
    (lib.probe alloc o p).handles.get h = lib.handles.get h :=
  HandleTable.get_close_opened hp h

@[simp] theorem contents_setContents (c : Contents T D) : (lib.setContents f c).contents f = c := by
  simp [contents, setContents]

theorem location_group (h : lib.handles.get id = some (.group f path)) :
    lib.location id = some (f, path) := by
  simp [location, h]

theorem location_file (h : lib.handles.get id = some (.file f)) :
    lib.location id = some (f, []) := by
  simp [location, h]

theorem location_closed (h : lib.handles.get id = none) : lib.location id = none := by
  simp [location, h]

/-- An attribute is opened if and only if it exists. -/
theorem h5aopen_group (h : lib.handles.get id = some (.group f path)) (name : String) :
    lib.h5aopen alloc id name =
      lib.issueIf alloc ((lib.contents f).attributes path name).isSome
        (.attribute f path name) := by
  simp [h5aopen, location_group h]

theorem h5dopen_group (h : lib.handles.get id = some (.group f path)) (name : String) :
    lib.h5dopen alloc id name =
      lib.issueIf alloc ((lib.contents f).datasets (resolve path name)).isSome
        (.dataset f (resolve path name)) := by
  simp [h5dopen, location_group h]

theorem h5dwrite_dataset (h : lib.handles.get id = some (.dataset f path))
    (hwrite : f.readonly = false) {data : D} (hdata : (lib.contents f).datasets path = some data)
    (change : D → Option D) :
    lib.h5dwrite id change =
      (change data).map fun data' =>
        lib.setContents f ((lib.contents f).setDataset path data') := by
  simp [h5dwrite, h, hwrite, hdata]

theorem h5dwrite_closed (h : lib.handles.get id = none) (change : D → Option D) :
    lib.h5dwrite id change = none := by
  simp [h5dwrite, h]

theorem h5dread_dataset {α : Type} (h : lib.handles.get id = some (.dataset f path)) {data : D}
    (hdata : (lib.contents f).datasets path = some data) (select : D → Option α) :
    lib.h5dread id select = select data := by
  simp [h5dread, h, hdata]

theorem h5acreate_group (h : lib.handles.get id = some (.group f path)) {name : String}
    (hnone : (lib.contents f).attributes path name = none) (hwrite : f.readonly = false)
    (initial : Value T) :
    lib.h5acreate alloc id name initial =
      (lib.setContents f ((lib.contents f).setAttribute path name initial)).issueIf alloc true
        (.attribute f path name) := by
  simp [h5acreate, location_group h, hnone, hwrite]

theorem h5acreate_readonly (h : lib.handles.get id = some (.group f path))
    (hread : f.readonly = true) (name : String) (initial : Value T) :
    lib.h5acreate alloc id name initial = (none, lib) := by
  simp [h5acreate, location_group h, hread]

@[simp] theorem handles_h5awrite (id : ℕ) (value : Value T) (lib : Library T D) :
    (lib.h5awrite id value).handles = lib.handles := by
  rw [h5awrite]
  split
  · split
    · split <;> rfl
    · split <;> rfl
    · rfl
  · rfl

theorem h5awrite_closed (h : lib.handles.get id = none) (value : Value T) :
    lib.h5awrite id value = lib := by
  simp [h5awrite, h]

theorem h5awrite_same {name : String} (h : lib.handles.get id = some (.attribute f path name))
    {old : Value T} (hold : (lib.contents f).attributes path name = some old) (value : Value T)
    (hkind : old.isNum = value.isNum) (hwrite : f.readonly = false) :
    lib.h5awrite id value =
      lib.setContents f ((lib.contents f).setAttribute path name value) := by
  cases old with
  | num _ =>
      cases value with
      | num _ => simp [h5awrite, h, hold, hwrite]
      | text _ => cases hkind
  | text _ =>
      cases value with
      | num _ => cases hkind
      | text _ => simp [h5awrite, h, hold, hwrite]

theorem h5awrite_readonly {name : String} (h : lib.handles.get id = some (.attribute f path name))
    (hread : f.readonly = true) (value : Value T) : lib.h5awrite id value = lib := by
  simp only [h5awrite, h, hread, if_true]
  split <;> rfl

theorem h5awrite_text {name : String} (h : lib.handles.get id = some (.attribute f path name))
    {text : String} (hold : (lib.contents f).attributes path name = some (.text text))
    (value : T) : lib.h5awrite id (.num value) = lib := by
  simp [h5awrite, h, hold]

theorem h5aclose_closed (h : lib.handles.get id = none) : lib.h5aclose id = lib := by
  rw [h5aclose, HandleTable.close_of_closed _ h]

end Library

end Grvy.Hdf5
