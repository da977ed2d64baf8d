import Grvy.Hdf5.Library

/-!
`GRVY_HDF5_Class` of `grvy_hdf5.cpp`: the calls of its public interface with the
three maps in which it keeps handles.

A call that ends in `exit(1)` is `none`. A handle is a number; `operator[]` puts
a 0, which is no handle, where there is no entry. What is printed is left out.
-/

namespace Grvy.Hdf5

open Std (TreeMap)
open Grvy.Lib

/-- `GRVY_HDF5_ClassImp`, with the library it works with. A negative `fileId` is
`none`. -/
structure Hdf5Class (T D : Type) extends Library T D where
  fileId : Option ℕ
  groupIds : TreeMap String ℕ
  datasetIds : TreeMap String ℕ
  attributeIds : TreeMap String ℕ

/-- The order in which `H5Literate` visits what is in a group. -/
structure NativeOrder where
  order : List String → List String
  order_perm : ∀ names, (order names).Perm names

namespace Hdf5Class

variable {T D : Type} (alloc : Allocator Object)

/-- The constructor. -/
def new (lib : Library T D) : Hdf5Class T D where
  toLibrary := lib
  fileId := none
  groupIds := ∅
  datasetIds := ∅
  attributeIds := ∅

/-- `groupIds[groupname]` -/
def groupId (groupname : String) (s : Hdf5Class T D) : ℕ × Hdf5Class T D :=
  match s.groupIds[groupname]? with
  | some id => (id, s)
  | none => (0, { s with groupIds := s.groupIds.insert groupname 0 })

/-! ### Files -/

def create (filename : String) (overwriteExisting permitted : Bool) (s : Hdf5Class T D) :
    Option (ℕ × Hdf5Class T D) :=
  match s.fileId with
  | some _ => none
  | none =>
      match s.h5fcreate alloc filename overwriteExisting permitted with
      | (none, _) => none
      | (some id, lib) => some (0, { s with toLibrary := lib, fileId := some id })

/-- `Exists` -/
def fileExists (filename : String) (permitted : Bool) (s : Hdf5Class T D) :
    Bool × Hdf5Class T D :=
  match s.h5fopen alloc filename true permitted with
  | (none, _) => (false, s)
  | (some id, lib) => (true, { s with toLibrary := lib.h5fclose id })

/-- `Open` -/
def openFile (filename : String) (readonly permitted : Bool) (s : Hdf5Class T D) :
    Option (ℕ × Hdf5Class T D) :=
  match s.fileId with
  | some _ => none
  | none =>
      match s.h5fopen alloc filename readonly permitted with
      | (none, _) => none
      | (some id, lib) => some (0, { s with toLibrary := lib, fileId := some id })

def closeOpenObjects (s : Hdf5Class T D) : Hdf5Class T D :=
  { s with
    toLibrary := s.groupIds.values.foldl (fun lib id => lib.h5gclose id) s.toLibrary
    groupIds := ∅ }

def close (s : Hdf5Class T D) : ℕ × Hdf5Class T D :=
  match s.fileId with
  | none => (0, s)
  | some id =>
      let s := s.closeOpenObjects
      (0, { s with toLibrary := s.h5fclose id, fileId := none })

/-! ### Groups -/

def groupCreate (descname : String) (s : Hdf5Class T D) : Option (ℕ × Hdf5Class T D) :=
  if s.groupIds.contains descname then some (1, s)
  else
    match s.fileId with
    | none => none
    | some file =>
        match s.h5gcreate alloc file (cString descname) with
        | (none, _) => none
        | (some id, lib) =>
            some (0, { s with toLibrary := lib, groupIds := s.groupIds.insert descname id })

def groupExists (groupname : String) (s : Hdf5Class T D) : Bool × Hdf5Class T D :=
  match s.fileId with
  | none => (false, s)
  | some file =>
      match s.h5gopen alloc file (cString groupname) with
      | (none, _) => (false, s)
      | (some id, lib) => (true, { s with toLibrary := lib.h5gclose id })

def groupOpen (groupname : String) (s : Hdf5Class T D) : Option (ℕ × Hdf5Class T D) :=
  match s.fileId with
  | none => none
  | some file =>
      if s.groupIds.contains groupname then some (0, s)
      else
        match s.h5gopen alloc file (cString groupname) with
        | (none, _) => none
        | (some id, lib) =>
            some (0, { s with toLibrary := lib, groupIds := s.groupIds.insert groupname id })

def listSubGroups (native : NativeOrder) (groupname : String) (s : Hdf5Class T D) :
    Option (List String × Hdf5Class T D) := do
  let (_, s) ← s.groupOpen alloc groupname
  let (id, s) := s.groupId groupname
  let names :=
    match s.location id with
    | some (f, path) => (s.contents f).subgroups path
    | none => []
  some (native.order names, s)

/-! ### Datasets -/

def datasetExists (groupname dataname : String) (s : Hdf5Class T D) : Bool × Hdf5Class T D :=
  let (loc, s) := s.groupId groupname
  match s.h5dopen alloc loc (cString dataname) with
  | (none, _) => (false, s)
  | (some id, lib) => (true, { s with toLibrary := lib.h5dclose id })

def datasetOpen (groupname dataname : String) (s : Hdf5Class T D) :
    Option (ℕ × Hdf5Class T D) :=
  match s.fileId with
  | none => none
  | some _ =>
      if s.datasetIds.contains dataname then some (0, s)
      else
        let (loc, s) := s.groupId groupname
        match s.h5dopen alloc loc (cString dataname) with
        | (none, _) => none
        | (some id, lib) =>
            some (0, { s with toLibrary := lib, datasetIds := s.datasetIds.insert dataname id })

/-- `PTableOpen` -/
def ptableOpen (groupname tablename : String) (s : Hdf5Class T D) :
    Option (ℕ × Hdf5Class T D) := do
  let (_, s) ← s.groupOpen alloc groupname
  let (loc, s) := s.groupId groupname
  match s.h5dopen alloc loc (cString tablename) with
  | (none, _) => none
  | (some id, lib) => some (id, { s with toLibrary := lib })

/-! ### Attributes -/

def attributeExists (groupname attrname : String) (s : Hdf5Class T D) : Bool × Hdf5Class T D :=
  let (loc, s) := s.groupId groupname
  match s.h5aopen alloc loc (cString attrname) with
  | (none, _) => (false, s)
  | (some id, lib) => (true, { s with toLibrary := lib.h5aclose id })

def attributeOpen (groupname attrname : String) (s : Hdf5Class T D) :
    Option (ℕ × Hdf5Class T D) :=
  match s.fileId with
  | none => none
  | some _ =>
      if s.attributeIds.contains attrname then some (0, s)
      else
        let (loc, s) := s.groupId groupname
        match s.h5aopen alloc loc (cString attrname) with
        | (none, _) => none
        | (some id, lib) =>
            some (0, { s with toLibrary := lib, attributeIds := s.attributeIds.insert attrname id })

/-- `H5Awrite` and `H5Aclose`, whose results are not looked at. -/
def writeAndClose (attrId : ℕ) (value : Value T) (s : Hdf5Class T D) : Hdf5Class T D :=
  { s with toLibrary := (s.h5awrite attrId value).h5aclose attrId }

/-- `H5Acreate`, `H5Awrite` and `H5Aclose`. -/
def createAndWrite (groupname attrname : String) (initial value : Value T)
    (s : Hdf5Class T D) : Option (ℕ × Hdf5Class T D) :=
  let (loc, s) := s.groupId groupname
  match s.h5acreate alloc loc (cString attrname) initial with
  | (none, _) => none
  | (some id, lib) => some (0, writeAndClose id value { s with toLibrary := lib })

/-- `AttributeWrite` of a number. -/
def attributeWrite [Zero T] (groupname attrname : String) (value : T) (s : Hdf5Class T D) :
    Option (ℕ × Hdf5Class T D) :=
  match s.attributeExists alloc groupname attrname with
  | (true, s) => do
      let (_, s) ← s.attributeOpen alloc groupname attrname
      some (0, s.writeAndClose (s.attributeIds[attrname]?.getD 0) (.num value))
  | (false, s) => s.createAndWrite alloc groupname attrname (.num 0) (.num value)

/-- `AttributeWrite` of a string. -/
def attributeWriteText (groupname attrname value : String) (s : Hdf5Class T D) :
    Option (ℕ × Hdf5Class T D) :=
  s.createAndWrite alloc groupname attrname (.text "") (.text (cString value))

/-- `AttributeRead`, for numbers and for strings: -1, or 0 and the value. An
attribute of the other type cannot be read, and its handle is not closed then. -/
def attributeReadWith {α : Type} (convert : Value T → Option α) (groupname attrname : String)
    (s : Hdf5Class T D) : Option ((ℤ × Option α) × Hdf5Class T D) := do
  let (_, s) ← s.groupOpen alloc groupname
  let (loc, s) := s.groupId groupname
  match s.h5aopen alloc loc (cString attrname) with
  | (none, _) => some ((-1, none), s)
  | (some id, lib) =>
      match (lib.h5aread id).bind convert with
      | none => some ((-1, none), { s with toLibrary := lib })
      | some value => some ((0, some value), { s with toLibrary := lib.h5aclose id })

def attributeRead (groupname attrname : String) (s : Hdf5Class T D) :
    Option ((ℤ × Option T) × Hdf5Class T D) :=
  s.attributeReadWith alloc Value.number groupname attrname

/-- The text read is left out: it is taken from memory that need not hold its end. -/
def attributeReadText (groupname attrname : String) (s : Hdf5Class T D) :
    Option ((ℤ × Option Unit) × Hdf5Class T D) :=
  s.attributeReadWith alloc (fun | .num _ => none | .text _ => some ()) groupname attrname

/-! ### What a call has done when it returns -/

section Returns

variable {alloc : Allocator Object} {s s' : Hdf5Class T D} {f : File} {groupname : String}
  {file ret : ℕ}

theorem openFile_returns {filename : String} {readonly permitted : Bool}
    (h : s.openFile alloc filename readonly permitted = some (ret, s')) :
    s.fileId = none ∧
      s' = { s with
        toLibrary := (s.issue alloc (.file { name := filename, readonly := readonly })).2
        fileId := some (alloc.fresh s.handles) } := by
  rw [openFile] at h
  split at h
  · cases h
  · rename_i hnone
    split at h
    · cases h
    · rename_i id lib hopen
      cases h
      obtain ⟨-, rfl, rfl⟩ := Library.issueIf_some hopen
      exact ⟨hnone, rfl⟩

theorem create_returns {filename : String} {overwrite permitted : Bool}
    (h : s.create alloc filename overwrite permitted = some (ret, s')) :
    s.fileId = none ∧
      s' = { s with
        toLibrary := ((s.setContents { name := filename, readonly := false } .empty).issue alloc
          (.file { name := filename, readonly := false })).2
        fileId := some (alloc.fresh s.handles) } := by
  rw [create] at h
  split at h
  · cases h
  · rename_i hnone
    split at h
    · cases h
    · rename_i id lib hcreate
      cases h
      rw [Library.h5fcreate] at hcreate
      split at hcreate
      · obtain ⟨-, rfl, rfl⟩ := Library.issueIf_some hcreate
        exact ⟨hnone, rfl⟩
      · cases hcreate

/-- A group is open already, or gets a handle. -/
theorem groupOpen_returns (hfile : s.fileId = some file)
    (hget : s.handles.get file = some (.file f))
    (h : s.groupOpen alloc groupname = some (ret, s')) :
    (s.groupIds.contains groupname = true ∧ s' = s) ∨
      (s.groupIds.contains groupname = false ∧
        s' = { s with
          toLibrary := (s.issue alloc (.group f (components (cString groupname)))).2
          groupIds := s.groupIds.insert groupname (alloc.fresh s.handles) }) := by
  rw [groupOpen, hfile] at h
  cases hcontains : s.groupIds.contains groupname with
  | true =>
      simp only [hcontains, if_true] at h
      cases h
      exact Or.inl ⟨rfl, rfl⟩
  | false =>
      simp only [hcontains, Bool.false_eq_true, if_false] at h
      split at h
      · cases h
      · rename_i id lib hopen
        cases h
        rw [Library.h5gopen, Library.location_file hget] at hopen
        obtain ⟨-, rfl, rfl⟩ := Library.issueIf_some hopen
        rw [resolve_nil, ← hfile]
        exact Or.inr ⟨rfl, rfl⟩

theorem groupCreate_returns (hfile : s.fileId = some file)
    (hget : s.handles.get file = some (.file f))
    (h : s.groupCreate alloc groupname = some (ret, s')) :
    (s.groupIds.contains groupname = true ∧ s' = s) ∨
      (s.groupIds.contains groupname = false ∧
        s' = { s with
          toLibrary := ((s.setContents f
            ((s.contents f).addGroup (components (cString groupname)))).issue alloc
              (.group f (components (cString groupname)))).2
          groupIds := s.groupIds.insert groupname (alloc.fresh s.handles) }) := by
  rw [groupCreate, hfile] at h
  cases hcontains : s.groupIds.contains groupname with
  | true =>
      simp only [hcontains, if_true] at h
      cases h
      exact Or.inl ⟨rfl, rfl⟩
  | false =>
      simp only [hcontains, Bool.false_eq_true, if_false] at h
      split at h
      · cases h
      · rename_i id lib hcreate
        cases h
        rw [Library.h5gcreate, Library.location_file hget] at hcreate
        simp only [resolve_nil] at hcreate
        split at hcreate
        · cases hcreate
        · obtain ⟨-, rfl, rfl⟩ := Library.issueIf_some hcreate
          rw [← hfile]
          exact Or.inr ⟨rfl, rfl⟩

end Returns

/-! ### What the calls do in a group that is open -/

section Calls

variable {alloc : Allocator Object} {s : Hdf5Class T D} {f : File} {path : Path}
  {groupname attrname dataname : String} {id file : ℕ}

theorem groupId_of_cached (h : s.groupIds[groupname]? = some id) :
    s.groupId groupname = (id, s) := by
  simp [groupId, h]

theorem groupOpen_cached (hfile : s.fileId = some file)
    (h : s.groupIds[groupname]? = some id) : s.groupOpen alloc groupname = some (0, s) := by
  have hmem : s.groupIds.contains groupname = true := by
    rw [TreeMap.contains_eq_isSome_getElem?, h]
    rfl
  simp [groupOpen, hfile, hmem]

theorem attributeExists_absent (hg : s.groupIds[groupname]? = some id)
    (hopen : s.handles.get id = some (.group f path))
    (hnone : (s.contents f).attributes path (cString attrname) = none) :
    s.attributeExists alloc groupname attrname = (false, s) := by
  rw [attributeExists, groupId_of_cached hg]
  simp only [Library.h5aopen_group hopen, hnone, Option.isSome_none, Library.issueIf_false]

theorem attributeExists_present (hg : s.groupIds[groupname]? = some id)
    (hopen : s.handles.get id = some (.group f path)) {value : Value T}
    (hsome : (s.contents f).attributes path (cString attrname) = some value) :
    s.attributeExists alloc groupname attrname =
      (true,
        { s with
          toLibrary := s.probe alloc (.attribute f path (cString attrname))
            Object.isAttribute }) := by
  rw [attributeExists, groupId_of_cached hg]
  simp only [Library.h5aopen_group hopen, hsome, Option.isSome_some, Library.issueIf_true]
  rfl

theorem attributeOpen_cached (alloc : Allocator Object) (groupname : String)
    (hfile : s.fileId = some file) (h : s.attributeIds.contains attrname = true) :
    s.attributeOpen alloc groupname attrname = some (0, s) := by
  simp [attributeOpen, hfile, h]

theorem attributeOpen_fresh (hfile : s.fileId = some file)
    (h : s.attributeIds.contains attrname = false) (hg : s.groupIds[groupname]? = some id)
    (hopen : s.handles.get id = some (.group f path)) {value : Value T}
    (hsome : (s.contents f).attributes path (cString attrname) = some value) :
    s.attributeOpen alloc groupname attrname =
      some (0,
        { s with
          toLibrary := (s.issue alloc (.attribute f path (cString attrname))).2
          attributeIds := s.attributeIds.insert attrname (alloc.fresh s.handles) }) := by
  simp only [attributeOpen, hfile, h, Bool.false_eq_true, if_false, groupId_of_cached hg,
    Library.h5aopen_group hopen, hsome, Option.isSome_some, Library.issueIf_true]

/-- What `AttributeRead` returns: -1, or 0 and the value. -/
def readResult {α : Type} (value : Option α) : ℤ × Option α :=
  value.elim (-1, none) fun x => (0, some x)

/-- A read looks at the file, and leaves a handle open if it cannot convert what it
finds. -/
theorem attributeReadWith_cached {α : Type} (convert : Value T → Option α)
    (hfile : s.fileId = some file) (hg : s.groupIds[groupname]? = some id)
    (hopen : s.handles.get id = some (.group f path)) :
    let o := Object.attribute f path (cString attrname)
    let stored := (s.contents f).attributes path (cString attrname)
    s.attributeReadWith alloc convert groupname attrname =
      some (readResult (stored.bind convert),
        { s with
          toLibrary :=
            if stored.isNone then s.toLibrary
            else if (stored.bind convert).isNone then (s.issue alloc o).2
            else s.probe alloc o Object.isAttribute }) := by
  intro o stored
  have hread : (s.issue alloc o).2.h5aread (alloc.fresh s.handles) = stored := by
    have hget : (s.issue alloc o).2.handles.get (alloc.fresh s.handles) = some o :=
      HandleTable.get_opened_fresh _ _
    rw [Library.h5aread, hget]
    rfl
  simp only [attributeReadWith, groupOpen_cached hfile hg, groupId_of_cached hg,
    Library.h5aopen_group hopen, Option.bind_eq_bind, Option.bind_some]
  cases hstored : (s.contents f).attributes path (cString attrname) with
  | none =>
      have hnone : stored = none := hstored
      simp [hnone, readResult]
  | some v =>
      have hsome : stored = some v := hstored
      rw [hsome] at hread
      simp only [Option.isSome_some, Library.issueIf_true, o, hread, hsome, Option.bind_some]
      cases convert v with
      | none => simp [readResult]
      | some x =>
          simp [readResult]
          rfl

theorem attributeWrite_of_exists [Zero T] {s₁ s₂ : Hdf5Class T D} {ret : ℕ}
    (hexists : s.attributeExists alloc groupname attrname = (true, s₁))
    (hopened : s₁.attributeOpen alloc groupname attrname = some (ret, s₂))
    (hkept : s₂.attributeIds[attrname]? = some id) (value : T) :
    s.attributeWrite alloc groupname attrname value =
      some (0, s₂.writeAndClose id (.num value)) := by
  rw [attributeWrite, hexists]
  simp [hopened, hkept]

end Calls

end Hdf5Class

end Grvy.Hdf5
