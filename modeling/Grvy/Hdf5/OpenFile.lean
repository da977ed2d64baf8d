import Grvy.Hdf5.Class

/-!
An object between two calls on the file it has open, and what each call does from
there to the contents of the file.

The groups it keeps are open and exist, and the handles it keeps for attributes are
closed.
-/

namespace Grvy.Hdf5

open Std (TreeMap)
open Grvy.Lib

variable {T D : Type} {alloc : Allocator Object}

theorem exists_of_contains {t : TreeMap String ℕ} {name : String} (h : t.contains name = true) :
    ∃ id, t[name]? = some id := by
  rw [TreeMap.contains_eq_isSome_getElem?] at h
  exact Option.isSome_iff_exists.mp h

/-! ### The state between calls -/

section Between

variable {s s' s'' : Hdf5Class T D} {f : File} {c c' : Contents T D} {groupname attrname : String}
  {id : ℕ}

/-- The groups are open in the file, and every handle kept for an attribute is
closed. -/
structure Ready (f : File) (s : Hdf5Class T D) : Prop where
  fileId : ∃ file, s.fileId = some file ∧ s.handles.get file = some (.file f)
  groups : ∀ (groupname : String) (id : ℕ), s.groupIds[groupname]? = some id →
    s.handles.get id = some (.group f (components (cString groupname)))
  exist : ∀ groupname, s.groupIds.contains groupname = true →
    (s.contents f).hasGroup (components (cString groupname)) = true
  closed : ∀ (attrname : String) (id : ℕ), s.attributeIds[attrname]? = some id → s.handles.Closed id

/-- What a call has done: the file has the contents `c`, and what was open or closed
is so still. -/
structure After (f : File) (c : Contents T D) (s s' : Hdf5Class T D) : Prop where
  ready : Ready f s'
  contents : s'.contents f = c
  handles : s.handles.Extends s'.handles
  groups : ∀ groupname, s.groupIds.contains groupname = true →
    s'.groupIds.contains groupname = true

/-- The call has kept no handle but those of groups. -/
structure Silent (f : File) (c : Contents T D) (s s' : Hdf5Class T D) : Prop
    extends After f c s s' where
  datasetIds : s'.datasetIds = s.datasetIds
  attributeIds : s'.attributeIds = s.attributeIds

theorem After.trans (h : After f c s s') (h' : After f c' s' s'') : After f c' s s'' where
  ready := h'.ready
  contents := h'.contents
  handles := h.handles.trans h'.handles
  groups groupname hg := h'.groups groupname (h.groups groupname hg)

theorem Silent.trans (h : Silent f c s s') (h' : Silent f c' s' s'') : Silent f c' s s'' where
  toAfter := h.toAfter.trans h'.toAfter
  datasetIds := h'.datasetIds.trans h.datasetIds
  attributeIds := h'.attributeIds.trans h.attributeIds

theorem Ready.silent_refl (ready : Ready f s) : Silent f (s.contents f) s s where
  ready := ready
  contents := rfl
  handles := .refl _
  groups _ hg := hg
  datasetIds := rfl
  attributeIds := rfl

/-- The library may change, if nothing is closed and no group goes. -/
theorem Ready.library (ready : Ready f s) (lib : Library T D)
    (hext : s.handles.Extends lib.handles)
    (hgroups : ∀ path, (s.contents f).hasGroup path = true →
      (lib.contents f).hasGroup path = true) :
    Silent f (lib.contents f) s { s with toLibrary := lib } where
  ready :=
    { fileId := by
        obtain ⟨file, hfile, hget⟩ := ready.fileId
        exact ⟨file, hfile, hext.keeps _ _ hget⟩
      groups := fun groupname id hid => hext.keeps _ _ (ready.groups groupname id hid)
      exist := fun groupname hg => hgroups _ (ready.exist groupname hg)
      closed := fun attrname id hid => hext.closed _ (ready.closed attrname id hid) }
  contents := rfl
  handles := hext
  groups _ hg := hg
  datasetIds := rfl
  attributeIds := rfl

/-- A group of the file may be kept. -/
theorem Ready.keepGroup (ready : Ready f s)
    (hget : s.handles.get id = some (.group f (components (cString groupname))))
    (hexists : (s.contents f).hasGroup (components (cString groupname)) = true) :
    Silent f (s.contents f) s { s with groupIds := s.groupIds.insert groupname id } where
  ready :=
    { fileId := ready.fileId
      groups := by
        intro other id' hid
        change (s.groupIds.insert groupname id)[other]? = some id' at hid
        by_cases hname : other = groupname
        · rw [hname, TreeMap.getElem?_insert_self] at hid
          cases hid
          rw [hname]
          exact hget
        · rw [getElem?_insert_of_ne hname] at hid
          exact ready.groups other id' hid
      exist := by
        intro other hother
        by_cases hname : other = groupname
        · rw [hname]
          exact hexists
        · rw [TreeMap.contains_insert, Bool.or_eq_true, beq_iff_eq, Std.compare_eq_iff_eq] at hother
          exact ready.exist other (hother.resolve_left fun heq => hname heq.symm)
      closed := ready.closed }
  contents := rfl
  handles := .refl _
  groups other hother := by
    rw [TreeMap.contains_insert, hother, Bool.or_true]
  datasetIds := rfl
  attributeIds := rfl

/-- A closed handle may be kept for an attribute. -/
theorem Ready.keepClosed (ready : Ready f s) (hclosed : s.handles.Closed id) (attrname : String) :
    After f (s.contents f) s { s with attributeIds := s.attributeIds.insert attrname id } where
  ready :=
    { fileId := ready.fileId
      groups := ready.groups
      exist := ready.exist
      closed := by
        intro other id' hid
        change (s.attributeIds.insert attrname id)[other]? = some id' at hid
        by_cases hname : other = attrname
        · rw [hname, TreeMap.getElem?_insert_self] at hid
          cases hid
          exact hclosed
        · rw [getElem?_insert_of_ne hname] at hid
          exact ready.closed other id' hid }
  contents := rfl
  handles := .refl _
  groups _ hg := hg

/-- A handle that is closed again is of no account. -/
theorem Ready.probe (alloc : Allocator Object) (ready : Ready f s) {o : Object}
    {p : Object → Bool} (ho : p o = true) :
    Silent f (s.contents f) s { s with toLibrary := s.probe alloc o p } :=
  ready.library (s.probe alloc o p) (HandleTable.extends_close_opened alloc _ ho)
    fun _ hgroup => hgroup

/-- Nor is one that is left open. -/
theorem Ready.issue (alloc : Allocator Object) (ready : Ready f s) (o : Object) :
    Silent f (s.contents f) s { s with toLibrary := (s.issue alloc o).2 } :=
  ready.library (s.issue alloc o).2 (HandleTable.extends_opened alloc _ o) fun _ hgroup => hgroup

end Between

/-! ### Opening and closing a file -/

section Files

variable {s : Hdf5Class T D} {f : File}

/-- No group is open, and every handle kept for an attribute is closed. -/
structure Idle (s : Hdf5Class T D) : Prop where
  groups : s.groupIds = ∅
  closed : ∀ (attrname : String) (id : ℕ), s.attributeIds[attrname]? = some id → s.handles.Closed id

theorem idle_new (lib : Library T D) : Idle (Hdf5Class.new lib) where
  groups := rfl
  closed _ _ hid := by
    rw [Hdf5Class.new, TreeMap.getElem?_emptyc] at hid
    cases hid

theorem Idle.openFile (idle : Idle s) (f : File) {lib : Library T D}
    (hlib : lib.handles = s.handles.opened alloc (.file f)) :
    Ready f { s with toLibrary := lib, fileId := some (alloc.fresh s.handles) } where
  fileId := by
    refine ⟨_, rfl, ?_⟩
    change lib.handles.get _ = _
    rw [hlib, HandleTable.get_opened_fresh]
  groups groupname id hid := by
    change s.groupIds[groupname]? = some id at hid
    rw [idle.groups, TreeMap.getElem?_emptyc] at hid
    cases hid
  exist groupname hg := by
    change s.groupIds.contains groupname = true at hg
    rw [idle.groups, TreeMap.contains_emptyc] at hg
    cases hg
  closed attrname id hid := by
    change lib.handles.Closed id
    rw [hlib]
    exact (idle.closed attrname id hid).opened _

/-- `Close` closes handles only. -/
theorem Ready.close (ready : Ready f s) : Idle s.close.2 := by
  obtain ⟨file, hfile, -⟩ := ready.fileId
  have hgroups (ids : List ℕ) (lib : Library T D) {h : ℕ} (hclosed : lib.handles.Closed h) :
      (ids.foldl (fun lib id => lib.h5gclose id) lib).handles.Closed h := by
    induction ids generalizing lib with
    | nil => exact hclosed
    | cons id ids ih => exact ih _ (hclosed.close _ id)
  simp only [Hdf5Class.close, hfile]
  refine ⟨rfl, fun attrname id hid => ?_⟩
  exact (hgroups _ _ (ready.closed attrname id hid)).close _ file

/-- `Close` leaves the contents. -/
theorem contents_close (s : Hdf5Class T D) (f : File) : s.close.2.contents f = s.contents f := by
  have hgroups (ids : List ℕ) (lib : Library T D) :
      (ids.foldl (fun lib id => lib.h5gclose id) lib).contents f = lib.contents f := by
    induction ids generalizing lib with
    | nil => rfl
    | cons id ids ih => exact ih _
  rw [Hdf5Class.close]
  split
  · rfl
  · exact hgroups _ _

end Files

/-! ### Groups -/

section Groups

variable {s s' : Hdf5Class T D} {f : File} {groupname : String} {ret : ℕ}

theorem Ready.groupExists (alloc : Allocator Object) (ready : Ready f s) (groupname : String) :
    ∃ s', s.groupExists alloc groupname =
        ((s.contents f).hasGroup (components (cString groupname)), s') ∧
      Silent f (s.contents f) s s' := by
  obtain ⟨file, hfile, hget⟩ := ready.fileId
  simp only [Hdf5Class.groupExists, hfile, Library.h5gopen, Library.location_file hget, resolve_nil]
  rw [← hfile]
  cases (s.contents f).hasGroup (components (cString groupname)) with
  | false => exact ⟨s, rfl, ready.silent_refl⟩
  | true =>
      exact ⟨_, rfl, ready.probe alloc (o := .group f (components (cString groupname)))
        (p := Object.isGroup) rfl⟩

/-- A group that exists can be opened. -/
theorem Ready.groupOpen (alloc : Allocator Object) (ready : Ready f s)
    (hgroup : (s.contents f).hasGroup (components (cString groupname)) = true) :
    ∃ s', s.groupOpen alloc groupname = some (0, s') ∧ Silent f (s.contents f) s s' ∧
      s'.groupIds.contains groupname = true := by
  obtain ⟨file, hfile, hget⟩ := ready.fileId
  simp only [Hdf5Class.groupOpen, hfile]
  cases hcontains : s.groupIds.contains groupname with
  | true => exact ⟨s, rfl, ready.silent_refl, hcontains⟩
  | false =>
      simp only [Library.h5gopen, Library.location_file hget, resolve_nil, hgroup]
      rw [← hfile]
      let o := Object.group f (components (cString groupname))
      have hissue := ready.issue alloc o
      have hnew : (s.issue alloc o).2.handles.get (alloc.fresh s.handles) = some o :=
        HandleTable.get_opened_fresh _ _
      exact ⟨_, rfl, hissue.trans (hissue.ready.keepGroup hnew hgroup),
        TreeMap.contains_insert_self⟩

/-- A group that is created is open, with the groups on the way to it. -/
theorem Ready.groupCreate (ready : Ready f s)
    (hgroup : (s.contents f).hasGroup (components (cString groupname)) = false)
    (h : s.groupCreate alloc groupname = some (ret, s')) :
    Silent f ((s.contents f).addGroup (components (cString groupname))) s s' ∧
      s'.groupIds.contains groupname = true := by
  obtain ⟨file, hfile, hget⟩ := ready.fileId
  rcases Hdf5Class.groupCreate_returns hfile hget h with ⟨hcontains, rfl⟩ | ⟨-, rfl⟩
  · rw [ready.exist groupname hcontains] at hgroup
    cases hgroup
  · let path := components (cString groupname)
    let c := (s.contents f).addGroup path
    let lib := ((s.setContents f c).issue alloc (.group f path)).2
    have hcontents : lib.contents f = c := Library.contents_setContents c
    have hcreated := ready.library lib (HandleTable.extends_opened alloc _ _) fun path' hpath => by
      rw [hcontents, Contents.hasGroup_addGroup]
      exact Or.inl hpath
    have hnew : lib.handles.get (alloc.fresh s.handles) = some (.group f path) :=
      HandleTable.get_opened_fresh _ _
    have hexists : (lib.contents f).hasGroup path = true := by
      rw [hcontents, Contents.hasGroup_addGroup]
      exact Or.inr (List.prefix_refl _)
    have hkept := hcreated.trans (hcreated.ready.keepGroup hnew hexists)
    rw [hcontents] at hkept
    exact ⟨hkept, TreeMap.contains_insert_self⟩

/-- Only a group that exists is opened. -/
theorem Ready.groupOpen_returns (ready : Ready f s)
    (h : s.groupOpen alloc groupname = some (ret, s')) : Silent f (s.contents f) s s' := by
  obtain ⟨file, hfile, hget⟩ := ready.fileId
  cases hgroup : (s.contents f).hasGroup (components (cString groupname)) with
  | true =>
      obtain ⟨s₁, hopen, silent, -⟩ := ready.groupOpen alloc hgroup
      rw [hopen] at h
      cases h
      exact silent
  | false =>
      have hcontains : s.groupIds.contains groupname = false := by
        by_contra hcontains
        rw [ready.exist groupname ((Bool.not_eq_false _).mp hcontains)] at hgroup
        cases hgroup
      simp [Hdf5Class.groupOpen, hfile, hcontains, Library.h5gopen, Library.location_file hget,
        hgroup] at h

theorem Ready.groupCreate_returns (ready : Ready f s)
    (h : s.groupCreate alloc groupname = some (ret, s')) : ∃ c, Silent f c s s' := by
  obtain ⟨file, hfile, hget⟩ := ready.fileId
  cases hgroup : (s.contents f).hasGroup (components (cString groupname)) with
  | false => exact ⟨_, (ready.groupCreate hgroup h).1⟩
  | true =>
      cases hcontains : s.groupIds.contains groupname with
      | true =>
          simp only [Hdf5Class.groupCreate, hcontains, if_true, Option.some.injEq,
            Prod.mk.injEq] at h
          rw [← h.2]
          exact ⟨_, ready.silent_refl⟩
      | false =>
          simp [Hdf5Class.groupCreate, hfile, hcontains, Library.h5gcreate,
            Library.location_file hget, hgroup] at h

/-- The groups directly below a group that exists are listed in some order. -/
theorem Ready.listSubGroups (alloc : Allocator Object) (native : NativeOrder) (ready : Ready f s)
    (hgroup : (s.contents f).hasGroup (components (cString groupname)) = true) :
    ∃ s', s.listSubGroups alloc native groupname =
        some (native.order ((s.contents f).subgroups (components (cString groupname))), s') ∧
      Silent f (s.contents f) s s' := by
  obtain ⟨s', hopen, silent, hg⟩ := ready.groupOpen alloc hgroup
  obtain ⟨id, hid⟩ := exists_of_contains hg
  refine ⟨s', ?_, silent⟩
  rw [Hdf5Class.listSubGroups, hopen]
  simp only [Option.bind_eq_bind, Option.bind_some, Hdf5Class.groupId_of_cached hid,
    Library.location_group (silent.ready.groups groupname id hid), silent.contents]

end Groups

/-! ### Datasets -/

section Datasets

variable {s s' : Hdf5Class T D} {f : File} {groupname dataname : String} {data : D} {id : ℕ}

/-- Where a dataset of a group is. -/
def datasetPath (groupname dataname : String) : Path :=
  resolve (components (cString groupname)) (cString dataname)

/-- A dataset that exists is opened in a group that is open. -/
theorem Ready.h5dopen (alloc : Allocator Object) (ready : Ready f s)
    (hid : s.groupIds[groupname]? = some id)
    (hdata : (s.contents f).datasets (datasetPath groupname dataname) = some data) :
    s.h5dopen alloc id (cString dataname) =
      (some (alloc.fresh s.handles),
        (s.issue alloc (.dataset f (datasetPath groupname dataname))).2) := by
  rw [Library.h5dopen_group (ready.groups groupname id hid), ← datasetPath, hdata]
  rfl

theorem Ready.datasetExists (alloc : Allocator Object) (ready : Ready f s)
    (hg : s.groupIds.contains groupname = true) (dataname : String) :
    ∃ s', s.datasetExists alloc groupname dataname =
        (((s.contents f).datasets (datasetPath groupname dataname)).isSome, s') ∧
      Silent f (s.contents f) s s' := by
  obtain ⟨id, hid⟩ := exists_of_contains hg
  rw [Hdf5Class.datasetExists, Hdf5Class.groupId_of_cached hid, datasetPath]
  simp only [Library.h5dopen_group (ready.groups groupname id hid)]
  cases ((s.contents f).datasets (resolve _ _)).isSome with
  | false => exact ⟨s, rfl, ready.silent_refl⟩
  | true =>
      exact ⟨_, rfl, ready.probe alloc (o := .dataset f (datasetPath groupname dataname))
        (p := Object.isDataset) rfl⟩

/-- A dataset that exists gets a handle, if none is kept under its name. -/
theorem Ready.datasetOpen (alloc : Allocator Object) (ready : Ready f s)
    (hg : s.groupIds.contains groupname = true) (hnew : s.datasetIds.contains dataname = false)
    (hdata : (s.contents f).datasets (datasetPath groupname dataname) = some data) :
    ∃ id s', s.datasetOpen alloc groupname dataname = some (0, s') ∧
      After f (s.contents f) s s' ∧ s'.attributeIds = s.attributeIds ∧
      s'.datasetIds[dataname]? = some id ∧
      s'.handles.get id = some (.dataset f (datasetPath groupname dataname)) := by
  obtain ⟨id, hid⟩ := exists_of_contains hg
  obtain ⟨file, hfile, -⟩ := ready.fileId
  have hissue := ready.issue alloc (.dataset f (datasetPath groupname dataname))
  refine ⟨alloc.fresh s.handles, { s with
      toLibrary := (s.issue alloc (.dataset f (datasetPath groupname dataname))).2
      datasetIds := s.datasetIds.insert dataname (alloc.fresh s.handles) },
    ?_, ?_, rfl, TreeMap.getElem?_insert_self, HandleTable.get_opened_fresh _ _⟩
  · rw [Hdf5Class.datasetOpen, Hdf5Class.groupId_of_cached hid]
    simp only [hfile, hnew, Bool.false_eq_true, if_false,
      ready.h5dopen alloc hid hdata]
  · exact
      { ready := ⟨hissue.ready.fileId, hissue.ready.groups, hissue.ready.exist,
          hissue.ready.closed⟩
        contents := hissue.contents
        handles := hissue.handles
        groups := hissue.groups }

/-- `PTableOpen` returns a handle of its own. -/
theorem Ready.ptableOpen (alloc : Allocator Object) (ready : Ready f s)
    (hgroup : (s.contents f).hasGroup (components (cString groupname)) = true)
    (hdata : (s.contents f).datasets (datasetPath groupname dataname) = some data) :
    ∃ id s', s.ptableOpen alloc groupname dataname = some (id, s') ∧
      Silent f (s.contents f) s s' ∧
      s'.handles.get id = some (.dataset f (datasetPath groupname dataname)) := by
  obtain ⟨s₁, hopen, silent, hg⟩ := ready.groupOpen alloc hgroup
  obtain ⟨id, hid⟩ := exists_of_contains hg
  have hissue := silent.ready.issue alloc (.dataset f (datasetPath groupname dataname))
  rw [silent.contents] at hissue
  refine ⟨_, _, ?_, silent.trans hissue, HandleTable.get_opened_fresh _ _⟩
  rw [Hdf5Class.ptableOpen, hopen]
  simp only [Option.bind_eq_bind, Option.bind_some, Hdf5Class.groupId_of_cached hid,
    silent.ready.h5dopen alloc hid (by rw [silent.contents]; exact hdata)]

/-- Where there is no dataset, `PTableOpen` ends the program. -/
theorem Ready.ptableOpen_absent (alloc : Allocator Object) (ready : Ready f s)
    (hgroup : (s.contents f).hasGroup (components (cString groupname)) = true)
    (hdata : (s.contents f).datasets (datasetPath groupname dataname) = none) :
    s.ptableOpen alloc groupname dataname = none := by
  obtain ⟨s₁, hopen, silent, hg⟩ := ready.groupOpen alloc hgroup
  obtain ⟨id, hid⟩ := exists_of_contains hg
  have hnone : s₁.h5dopen alloc id (cString dataname) = (none, s₁.toLibrary) := by
    rw [Library.h5dopen_group (silent.ready.groups groupname id hid), silent.contents,
      ← datasetPath, hdata]
    rfl
  rw [Hdf5Class.ptableOpen, hopen]
  simp only [Option.bind_eq_bind, Option.bind_some, Hdf5Class.groupId_of_cached hid, hnone]

/-- Only datasets are closed. -/
theorem Ready.h5dclose (ready : Ready f s) (id : ℕ) :
    Ready f { s with toLibrary := s.h5dclose id } where
  fileId := by
    obtain ⟨file, hfile, hget⟩ := ready.fileId
    exact ⟨file, hfile, HandleTable.get_close_of_not hget rfl id⟩
  groups groupname id' hid :=
    HandleTable.get_close_of_not (ready.groups groupname id' hid) rfl id
  exist := ready.exist
  closed attrname id' hid := (ready.closed attrname id' hid).close _ id

/-- A dataset is created in a group that is open, with a handle of its own, or nothing
happens. -/
theorem Ready.h5dcreate (alloc : Allocator Object) (ready : Ready f s)
    (hid : s.groupIds[groupname]? = some id) (name : String) (initial : D) :
    s.h5dcreate alloc id name initial = (none, s.toLibrary) ∨
      ∃ id' lib, s.h5dcreate alloc id name initial = (some id', lib) ∧
        Silent f ((s.contents f).setDataset (resolve (components (cString groupname)) name) initial)
          s { s with toLibrary := lib } ∧
        lib.handles.get id' =
          some (.dataset f (resolve (components (cString groupname)) name)) := by
  rw [Library.h5dcreate, Library.location_group (ready.groups groupname id hid)]
  let path := resolve (components (cString groupname)) name
  let lib₁ := s.setContents f ((s.contents f).setDataset path initial)
  let lib₂ := (lib₁.issue alloc (.dataset f path)).2
  have hcontents : lib₂.contents f = (s.contents f).setDataset path initial :=
    Library.contents_setContents _
  simp only
  split
  · exact Or.inl rfl
  · right
    refine ⟨_, lib₂, rfl, ?_, HandleTable.get_opened_fresh _ _⟩
    have silent := ready.library lib₂ (HandleTable.extends_opened alloc _ _) fun path' hgroup => by
      rw [hcontents]
      exact hgroup
    rw [hcontents] at silent
    exact silent

end Datasets

/-! ### Attributes -/

section Attributes

variable {s s' : Hdf5Class T D} {f : File} {groupname attrname : String}

/-- An attribute that does not exist is created, with a handle that is not kept. -/
theorem Ready.createAndWrite (alloc : Allocator Object) (ready : Ready f s)
    (hg : s.groupIds.contains groupname = true) (hwrite : f.readonly = false)
    (hnone : (s.contents f).attributes (components (cString groupname)) (cString attrname) = none)
    {initial value : Value T} (hkind : initial.isNum = value.isNum) :
    ∃ s', s.createAndWrite alloc groupname attrname initial value = some (0, s') ∧
      Silent f ((s.contents f).setAttribute (components (cString groupname)) (cString attrname)
        value) s s' := by
  obtain ⟨id, hid⟩ := exists_of_contains hg
  let path := components (cString groupname)
  let name := cString attrname
  let fresh := alloc.fresh s.handles
  let lib₁ := s.setContents f ((s.contents f).setAttribute path name initial)
  let lib₂ := (lib₁.issue alloc (.attribute f path name)).2
  let lib₃ := (lib₂.h5awrite fresh value).h5aclose fresh
  have hget : lib₂.handles.get fresh = some (.attribute f path name) :=
    HandleTable.get_opened_fresh _ _
  have hcontents : lib₂.contents f = (s.contents f).setAttribute path name initial :=
    Library.contents_setContents _
  have hold : (lib₂.contents f).attributes path name = some initial := by
    rw [hcontents, Contents.attributes_setAttribute, if_pos ⟨rfl, rfl⟩]
  have hstored := Library.h5awrite_same hget hold value hkind hwrite
  have hlast : lib₃.contents f = (s.contents f).setAttribute path name value := by
    change (lib₂.h5awrite fresh value).contents f = _
    simp [hstored, Library.contents_setContents, hcontents]
  have hext : s.handles.Extends lib₃.handles := by
    change s.handles.Extends ((lib₂.h5awrite fresh value).handles.close Object.isAttribute fresh)
    rw [Library.handles_h5awrite]
    exact HandleTable.extends_close_opened alloc _ rfl
  have hsilent := ready.library lib₃ hext fun path' hgroup => by
    rw [hlast]
    exact hgroup
  rw [hlast] at hsilent
  refine ⟨{ s with toLibrary := lib₃ }, ?_, hsilent⟩
  simp only [Hdf5Class.createAndWrite, Hdf5Class.groupId_of_cached hid,
    Library.h5acreate_group (ready.groups groupname id hid) hnone hwrite, Library.issueIf_true]
  rfl

theorem Ready.attributeWrite_creates [Zero T] (alloc : Allocator Object) (ready : Ready f s)
    (hg : s.groupIds.contains groupname = true) (hwrite : f.readonly = false)
    (hnone : (s.contents f).attributes (components (cString groupname)) (cString attrname) = none)
    (value : T) :
    ∃ s', s.attributeWrite alloc groupname attrname value = some (0, s') ∧
      Silent f ((s.contents f).setAttribute (components (cString groupname)) (cString attrname)
        (.num value)) s s' := by
  obtain ⟨id, hid⟩ := exists_of_contains hg
  rw [Hdf5Class.attributeWrite,
    Hdf5Class.attributeExists_absent hid (ready.groups groupname id hid) hnone]
  exact ready.createAndWrite alloc hg hwrite hnone rfl

theorem Ready.attributeWriteText (alloc : Allocator Object) (ready : Ready f s)
    (hg : s.groupIds.contains groupname = true) (hwrite : f.readonly = false)
    (hnone : (s.contents f).attributes (components (cString groupname)) (cString attrname) = none)
    (value : String) :
    ∃ s', s.attributeWriteText alloc groupname attrname value = some (0, s') ∧
      Silent f ((s.contents f).setAttribute (components (cString groupname)) (cString attrname)
        (.text (cString value))) s s' :=
  ready.createAndWrite alloc hg hwrite hnone rfl

/-- In a file that is only read, a write that would create its attribute exits. -/
theorem Ready.attributeWrite_exits [Zero T] (alloc : Allocator Object) (ready : Ready f s)
    (hg : s.groupIds.contains groupname = true) (hread : f.readonly = true)
    (hnone : (s.contents f).attributes (components (cString groupname)) (cString attrname) = none)
    (value : T) : s.attributeWrite alloc groupname attrname value = none := by
  obtain ⟨id, hid⟩ := exists_of_contains hg
  have hopen := ready.groups groupname id hid
  rw [Hdf5Class.attributeWrite, Hdf5Class.attributeExists_absent hid hopen hnone]
  simp only [Hdf5Class.createAndWrite, Hdf5Class.groupId_of_cached hid,
    Library.h5acreate_readonly hopen hread]

/-- The library when an attribute that exists has been looked for, and opened. -/
def reopened (alloc : Allocator Object) (o : Object) (lib : Library T D) : Library T D :=
  ((lib.probe alloc o Object.isAttribute).issue alloc o).2

@[simp] theorem get_reopened (alloc : Allocator Object) (o : Object) (lib : Library T D) :
    (reopened alloc o lib).handles.get
      (alloc.fresh (lib.probe alloc o Object.isAttribute).handles) = some o :=
  HandleTable.get_opened_fresh _ _

/-- The handle kept for an attribute is closed. -/
theorem Ready.reopened (alloc : Allocator Object) (ready : Ready f s) {o : Object}
    (ho : o.isAttribute = true) (lib : Library T D)
    (hlib : lib.handles = (Hdf5.reopened alloc o s.toLibrary).handles)
    (hgroups : ∀ path, (s.contents f).hasGroup path = true →
      (lib.contents f).hasGroup path = true) (attrname : String) :
    After f (lib.contents f) s { s with
      toLibrary := lib.h5aclose (alloc.fresh (s.probe alloc o Object.isAttribute).handles)
      attributeIds := s.attributeIds.insert attrname
        (alloc.fresh (s.probe alloc o Object.isAttribute).handles) } := by
  let fresh := alloc.fresh (s.probe alloc o Object.isAttribute).handles
  have hhandles : (lib.h5aclose fresh).handles =
      ((s.probe alloc o Object.isAttribute).handles.opened alloc o).close Object.isAttribute
        fresh := by
    rw [Library.h5aclose, hlib]
    rfl
  have hext : s.handles.Extends (lib.h5aclose fresh).handles := by
    rw [hhandles]
    exact (HandleTable.extends_close_opened alloc s.handles ho).trans
      (HandleTable.extends_close_opened alloc _ ho)
  have hclosed : (lib.h5aclose fresh).handles.Closed fresh := by
    rw [hhandles]
    exact HandleTable.closed_close (HandleTable.get_opened_fresh _ _) ho
  have hsilent := ready.library (lib.h5aclose fresh) hext hgroups
  exact hsilent.toAfter.trans (hsilent.ready.keepClosed hclosed attrname)

/-- A write to an attribute that exists keeps its handle, if there is none under the
name, and closes it. -/
theorem Ready.attributeWrite_keeps [Zero T] (alloc : Allocator Object) (ready : Ready f s)
    (hg : s.groupIds.contains groupname = true)
    (hnew : s.attributeIds.contains attrname = false) {stored : Value T}
    (hsome : (s.contents f).attributes (components (cString groupname)) (cString attrname) =
      some stored) (value : T) :
    let o := Object.attribute f (components (cString groupname)) (cString attrname)
    let fresh := alloc.fresh (s.probe alloc o Object.isAttribute).handles
    s.attributeWrite alloc groupname attrname value =
      some (0,
        { s with
          toLibrary :=
            ((Hdf5.reopened alloc o s.toLibrary).h5awrite fresh (.num value)).h5aclose fresh
          attributeIds := s.attributeIds.insert attrname fresh }) := by
  intro o fresh
  obtain ⟨id, hid⟩ := exists_of_contains hg
  have hopen := ready.groups groupname id hid
  obtain ⟨file, hfile, -⟩ := ready.fileId
  let s₁ : Hdf5Class T D := { s with toLibrary := s.probe alloc o Object.isAttribute }
  have hopen₁ : s₁.handles.get id = some (.group f (components (cString groupname))) := by
    change (s.probe alloc o Object.isAttribute).handles.get id = _
    rw [Library.get_probe rfl, hopen]
  exact Hdf5Class.attributeWrite_of_exists
    (Hdf5Class.attributeExists_present hid hopen hsome)
    (Hdf5Class.attributeOpen_fresh (s := s₁) hfile hnew hid hopen₁ hsome)
    TreeMap.getElem?_insert_self value

/-- A write reaches an attribute that exists if no handle is kept under the name. -/
theorem Ready.attributeWrite_updates [Zero T] (alloc : Allocator Object) (ready : Ready f s)
    (hg : s.groupIds.contains groupname = true) (hwrite : f.readonly = false)
    (hnew : s.attributeIds.contains attrname = false) {old : T}
    (hold : (s.contents f).attributes (components (cString groupname)) (cString attrname) =
      some (.num old)) (value : T) :
    ∃ s', s.attributeWrite alloc groupname attrname value = some (0, s') ∧
      After f ((s.contents f).setAttribute (components (cString groupname)) (cString attrname)
        (.num value)) s s' := by
  let o := Object.attribute f (components (cString groupname)) (cString attrname)
  have hstored := Library.h5awrite_same (get_reopened alloc o s.toLibrary) hold (.num value) rfl
    hwrite
  refine ⟨_, ready.attributeWrite_keeps alloc hg hnew hold value, ?_⟩
  rw [hstored]
  have hafter := ready.reopened alloc (o := o) rfl
    ((Hdf5.reopened alloc o s.toLibrary).setContents f
      ((s.contents f).setAttribute (components (cString groupname)) (cString attrname)
        (.num value))) rfl (fun path hgroup => by
          rw [Library.contents_setContents]
          exact hgroup) attrname
  rw [Library.contents_setContents] at hafter
  exact hafter

/-- Otherwise it leaves the file as it is, and returns 0. -/
theorem Ready.attributeWrite_vanishes [Zero T] (alloc : Allocator Object) (ready : Ready f s)
    (hg : s.groupIds.contains groupname = true) {stored : Value T}
    (hsome : (s.contents f).attributes (components (cString groupname)) (cString attrname) =
      some stored)
    (hlost : f.readonly = true ∨ s.attributeIds.contains attrname = true ∨
      ∃ text, stored = .text text) (value : T) :
    ∃ s', s.attributeWrite alloc groupname attrname value = some (0, s') ∧
      After f (s.contents f) s s' := by
  let o := Object.attribute f (components (cString groupname)) (cString attrname)
  by_cases hkept : s.attributeIds.contains attrname = true
  · -- The handle kept under the name is closed, so that nothing is written.
    obtain ⟨id, hid⟩ := exists_of_contains hg
    obtain ⟨kept, hkeptId⟩ := exists_of_contains hkept
    obtain ⟨file, hfile, -⟩ := ready.fileId
    let s₁ : Hdf5Class T D := { s with toLibrary := s.probe alloc o Object.isAttribute }
    have hprobe : Silent f (s.contents f) s s₁ := ready.probe alloc rfl
    have hclosed : s₁.handles.get kept = none :=
      (hprobe.ready.closed attrname kept hkeptId).get_eq
    have hwrite := Hdf5Class.attributeWrite_of_exists
      (Hdf5Class.attributeExists_present hid (ready.groups groupname id hid) hsome)
      (Hdf5Class.attributeOpen_cached (s := s₁) alloc groupname hfile hkept) hkeptId value
    refine ⟨s₁, ?_, hprobe.toAfter⟩
    rw [hwrite, Hdf5Class.writeAndClose, Library.h5awrite_closed hclosed,
      Library.h5aclose_closed hclosed]
  · -- The attribute cannot be written.
    have hnew : s.attributeIds.contains attrname = false := (Bool.not_eq_true _).mp hkept
    have hget := get_reopened alloc o s.toLibrary
    have hsame : (Hdf5.reopened alloc o s.toLibrary).h5awrite
        (alloc.fresh (s.probe alloc o Object.isAttribute).handles) (.num value) =
          Hdf5.reopened alloc o s.toLibrary := by
      rcases hlost with hread | hcontains | ⟨text, rfl⟩
      · exact Library.h5awrite_readonly hget hread _
      · exact absurd hcontains hkept
      · exact Library.h5awrite_text hget hsome value
    refine ⟨_, ready.attributeWrite_keeps alloc hg hnew hsome value, ?_⟩
    rw [hsame]
    exact ready.reopened alloc (o := o) rfl _ rfl (fun _ hgroup => hgroup) attrname

/-- A read opens its group and looks at the file. -/
theorem Ready.attributeReadWith {α : Type} (alloc : Allocator Object) (ready : Ready f s)
    (convert : Value T → Option α)
    (hgroup : (s.contents f).hasGroup (components (cString groupname)) = true)
    (attrname : String) :
    ∃ s', s.attributeReadWith alloc convert groupname attrname =
        some (Hdf5Class.readResult (((s.contents f).attributes (components (cString groupname))
          (cString attrname)).bind convert), s') ∧
      Silent f (s.contents f) s s' := by
  obtain ⟨s₁, hopen, silent, hg⟩ := ready.groupOpen alloc hgroup
  obtain ⟨id, hid⟩ := exists_of_contains hg
  obtain ⟨file, hfile, -⟩ := silent.ready.fileId
  have hcached : s.attributeReadWith alloc convert groupname attrname =
      s₁.attributeReadWith alloc convert groupname attrname := by
    rw [Hdf5Class.attributeReadWith, hopen, Hdf5Class.attributeReadWith,
      Hdf5Class.groupOpen_cached hfile hid]
  rw [hcached, Hdf5Class.attributeReadWith_cached convert hfile hid
    (silent.ready.groups groupname id hid), silent.contents]
  refine ⟨_, rfl, silent.trans ?_⟩
  rw [← silent.contents]
  split
  · exact silent.ready.silent_refl
  · split
    · exact silent.ready.issue alloc _
    · exact silent.ready.probe alloc rfl

/-- It may come behind something that has been done. -/
theorem Silent.attributeReadWith {α : Type} {s₀ : Hdf5Class T D} {c : Contents T D}
    (silent : Silent f c s₀ s) (alloc : Allocator Object) (convert : Value T → Option α)
    (hgroup : c.hasGroup (components (cString groupname)) = true) (attrname : String) :
    ∃ result s', s.attributeReadWith alloc convert groupname attrname = some (result, s') ∧
      Silent f c s₀ s' := by
  obtain ⟨s', hread, silent'⟩ :=
    silent.ready.attributeReadWith alloc convert (by rw [silent.contents]; exact hgroup) attrname
  rw [silent.contents] at silent'
  exact ⟨_, s', hread, silent.trans silent'⟩

theorem Silent.attributeReadText {s₀ : Hdf5Class T D} {c : Contents T D}
    (silent : Silent f c s₀ s) (alloc : Allocator Object)
    (hgroup : c.hasGroup (components (cString groupname)) = true) (attrname : String) :
    ∃ result s', s.attributeReadText alloc groupname attrname = some (result, s') ∧
      Silent f c s₀ s' :=
  silent.attributeReadWith alloc _ hgroup attrname

end Attributes

end Grvy.Hdf5
