import Grvy.Hdf5.OpenFile
import Grvy.Lib.Outcome

/-!
The handles an object keeps: whether every one of them is open, in the file that is
open, and of the object the caller named.

A call keeps it so if and only if it does not take one of the paths that forget
something: `operator[]` on a group that is not open, a name that was kept for
another group, a handle closed but kept, a file closed while datasets or attributes
are kept.
-/

namespace Grvy.Hdf5

open Std (TreeMap)
open Grvy.Lib

variable {T D : Type} {alloc : Allocator Object}

/-! ### Calls -/

/-- A call of the public interface. -/
inductive Op (T : Type)
  | create (filename : String) (overwriteExisting permitted : Bool)
  | openFile (filename : String) (readonly permitted : Bool)
  | close
  | groupCreate (groupname : String)
  | groupOpen (groupname : String)
  | groupExists (groupname : String)
  | listSubGroups (native : NativeOrder) (groupname : String)
  | datasetOpen (groupname dataname : String)
  | datasetExists (groupname dataname : String)
  | attributeOpen (groupname attrname : String)
  | attributeExists (groupname attrname : String)
  | attributeWrite (groupname attrname : String) (value : T)
  | attributeWriteText (groupname attrname value : String)
  | attributeRead (groupname attrname : String)
  | attributeReadText (groupname attrname : String)

/-- The object after a call that returns. -/
def Op.perform [Zero T] (alloc : Allocator Object) (op : Op T) (s : Hdf5Class T D) :
    Option (Hdf5Class T D) :=
  match op with
  | .create filename overwriteExisting permitted =>
      (s.create alloc filename overwriteExisting permitted).map Prod.snd
  | .openFile filename readonly permitted =>
      (s.openFile alloc filename readonly permitted).map Prod.snd
  | .close => some s.close.2
  | .groupCreate groupname => (s.groupCreate alloc groupname).map Prod.snd
  | .groupOpen groupname => (s.groupOpen alloc groupname).map Prod.snd
  | .groupExists groupname => some (s.groupExists alloc groupname).2
  | .listSubGroups native groupname => (s.listSubGroups alloc native groupname).map Prod.snd
  | .datasetOpen groupname dataname => (s.datasetOpen alloc groupname dataname).map Prod.snd
  | .datasetExists groupname dataname => some (s.datasetExists alloc groupname dataname).2
  | .attributeOpen groupname attrname => (s.attributeOpen alloc groupname attrname).map Prod.snd
  | .attributeExists groupname attrname => some (s.attributeExists alloc groupname attrname).2
  | .attributeWrite groupname attrname value =>
      (s.attributeWrite alloc groupname attrname value).map Prod.snd
  | .attributeWriteText groupname attrname value =>
      (s.attributeWriteText alloc groupname attrname value).map Prod.snd
  | .attributeRead groupname attrname => (s.attributeRead alloc groupname attrname).map Prod.snd
  | .attributeReadText groupname attrname =>
      (s.attributeReadText alloc groupname attrname).map Prod.snd

/-- The group in which the caller last opened a dataset or an attribute of a name. -/
structure Named where
  datasetGroup : String → Option String
  attributeGroup : String → Option String

def Named.nothing : Named where
  datasetGroup _ := none
  attributeGroup _ := none

def Op.name (op : Op T) (named : Named) : Named :=
  match op with
  | .datasetOpen groupname dataname =>
      { named with datasetGroup := Function.update named.datasetGroup dataname (some groupname) }
  | .attributeOpen groupname attrname =>
      { named with
        attributeGroup := Function.update named.attributeGroup attrname (some groupname) }
  | _ => named

/-! ### Coherence -/

/-- The file that is open. -/
def Hdf5Class.currentFile (s : Hdf5Class T D) : Option File :=
  match s.fileId.bind s.handles.get with
  | some (.file f) => some f
  | _ => none

/-- What a group name stands for. -/
def groupObject (file : Option File) (groupname : String) : Option Object :=
  file.map fun f => .group f (components (cString groupname))

/-- What a dataset name stands for. -/
def datasetObject (file : Option File) (named : Named) (dataname : String) : Option Object :=
  file.bind fun f => (named.datasetGroup dataname).map fun groupname =>
    .dataset f (datasetPath groupname dataname)

/-- What an attribute name stands for. -/
def attributeObject (file : Option File) (named : Named) (attrname : String) : Option Object :=
  file.bind fun f => (named.attributeGroup attrname).map fun groupname =>
    .attribute f (components (cString groupname)) (cString attrname)

/-- Every entry of the three maps is a handle that is open, in the file that is open,
of the object the caller named. -/
structure Coherent (named : Named) (s : Hdf5Class T D) : Prop where
  file : ∀ id, s.fileId = some id → ∃ f, s.handles.get id = some (.file f)
  groups : s.handles.Current s.groupIds (groupObject s.currentFile)
  datasets : s.handles.Current s.datasetIds (datasetObject s.currentFile named)
  attributes : s.handles.Current s.attributeIds (attributeObject s.currentFile named)

/-- `Close` leaves no entry, a query adds none, and `DatasetOpen` opens the dataset it
is given. -/
def Documented (s s' : Hdf5Class T D) : Op T → Prop
  | .close =>
      s'.groupIds.isEmpty = true ∧ s'.datasetIds.isEmpty = true ∧ s'.attributeIds.isEmpty = true
  | .groupExists _ | .datasetExists _ _ | .attributeExists _ _ =>
      s'.groupIds = s.groupIds ∧ s'.datasetIds = s.datasetIds ∧ s'.attributeIds = s.attributeIds
  | .datasetOpen groupname dataname =>
      ∃ f id, s'.currentFile = some f ∧ s'.datasetIds[dataname]? = some id ∧
        s'.handles.get id = some (.dataset f (datasetPath groupname dataname))
  | _ => True

/-- It is so after every call of a sequence. -/
def StaysCoherent [Zero T] (alloc : Allocator Object) : List (Op T) → Named → Hdf5Class T D → Prop
  | [], named, s => Coherent named s
  | op :: ops, named, s =>
      Coherent named s ∧ ∀ s', op.perform alloc s = some s' →
        Documented s s' op ∧ StaysCoherent alloc ops (op.name named) s'

/-- The condition on a call, in the state it finds: `Close` has no dataset or attribute
to forget, a query is about a group that is open, a name that is kept already was last
opened at the same place, and a number is written to an attribute that does not
exist. -/
def Fine (named : Named) (s : Hdf5Class T D) : Op T → Prop
  | .close => s.datasetIds.isEmpty = true ∧ s.attributeIds.isEmpty = true
  | .datasetExists groupname _ | .attributeExists groupname _ =>
      s.groupIds.contains groupname = true
  | .datasetOpen groupname dataname => s.datasetIds.contains dataname = true →
      ∃ before, named.datasetGroup dataname = some before ∧
        datasetPath before dataname = datasetPath groupname dataname
  | .attributeOpen groupname attrname => s.attributeIds.contains attrname = true →
      ∃ before, named.attributeGroup attrname = some before ∧
        components (cString before) = components (cString groupname)
  | .attributeWrite groupname attrname _ => ∀ f, s.currentFile = some f →
      (s.contents f).attributes (components (cString groupname)) (cString attrname) = none
  | _ => True

instance decidableFine (named : Named) (s : Hdf5Class T D) (op : Op T) :
    Decidable (Fine named s op) :=
  match op with
  | .close =>
      inferInstanceAs (Decidable (s.datasetIds.isEmpty = true ∧ s.attributeIds.isEmpty = true))
  | .datasetExists groupname _ | .attributeExists groupname _ =>
      inferInstanceAs (Decidable (s.groupIds.contains groupname = true))
  | .datasetOpen groupname dataname =>
      inferInstanceAs (Decidable (s.datasetIds.contains dataname = true →
        ∃ before ∈ named.datasetGroup dataname,
          datasetPath before dataname = datasetPath groupname dataname))
  | .attributeOpen groupname attrname =>
      inferInstanceAs (Decidable (s.attributeIds.contains attrname = true →
        ∃ before ∈ named.attributeGroup attrname,
          components (cString before) = components (cString groupname)))
  | .attributeWrite groupname attrname _ =>
      inferInstanceAs (Decidable (∀ f ∈ s.currentFile,
        (s.contents f).attributes (components (cString groupname)) (cString attrname) = none))
  | .create .. | .openFile .. | .groupCreate .. | .groupOpen .. | .groupExists ..
  | .listSubGroups .. | .attributeWriteText .. | .attributeRead .. | .attributeReadText .. =>
      .isTrue trivial

/-- Every call of a sequence that returns meets the condition. -/
def AllFine [Zero T] (alloc : Allocator Object) : List (Op T) → Named → Hdf5Class T D → Prop
  | [], _, _ => True
  | op :: ops, named, s => ∀ s', op.perform alloc s = some s' →
      Fine named s op ∧ AllFine alloc ops (op.name named) s'

instance decidableAllFine [Zero T] (alloc : Allocator Object) (ops : List (Op T))
    (named : Named) (s : Hdf5Class T D) : Decidable (AllFine alloc ops named s) :=
  match ops with
  | [] => .isTrue trivial
  | op :: ops =>
      match h : op.perform alloc s with
      | none => .isTrue (by simp [AllFine, h])
      | some s' =>
          have := decidableAllFine alloc ops (op.name named) s'
          decidable_of_iff (Fine named s op ∧ AllFine alloc ops (op.name named) s')
            (by simp [AllFine, h])

/-! ### What keeps an object coherent -/

section Keeping

variable {named : Named} {s s' : Hdf5Class T D} {f : File} {id : ℕ}
  {groupname dataname attrname : String}

theorem currentFile_eq (hfile : s.fileId = some id) (hget : s.handles.get id = some (.file f)) :
    s.currentFile = some f := by
  simp [Hdf5Class.currentFile, hfile, hget]

theorem currentFile_none (hfile : s.fileId = none) : s.currentFile = none := by
  simp [Hdf5Class.currentFile, hfile]

namespace Coherent

variable (coh : Coherent named s)

include coh

/-- The group of an entry is open in the file that is open. -/
theorem group (hid : s.groupIds[groupname]? = some id) :
    ∃ f, s.currentFile = some f ∧
      s.handles.get id = some (.group f (components (cString groupname))) := by
  obtain ⟨o, ho, hget⟩ := coh.groups groupname id hid
  obtain ⟨f, hf, rfl⟩ := Option.map_eq_some_iff.mp ho
  exact ⟨f, hf, hget⟩

theorem currentFile_keeps {lib : Library T D} (hkeep : s.handles.Keeps lib.handles) :
    ({ s with toLibrary := lib } : Hdf5Class T D).currentFile = s.currentFile := by
  have hgoal (s' : Hdf5Class T D) (hid : s'.fileId = s.fileId)
      (hkeep : s.handles.Keeps s'.handles) : s'.currentFile = s.currentFile := by
    cases hfile : s.fileId with
    | none => rw [currentFile_none hfile, currentFile_none (hid.trans hfile)]
    | some file =>
        obtain ⟨f, hget⟩ := coh.file file hfile
        rw [currentFile_eq hfile hget, currentFile_eq (hid.trans hfile) (hkeep _ _ hget)]
  exact hgoal _ rfl hkeep

/-- Only the handles that are open matter. -/
theorem quiet {lib : Library T D} (hkeep : s.handles.Keeps lib.handles) :
    Coherent named { s with toLibrary := lib } := by
  have hcurrent := coh.currentFile_keeps hkeep
  refine ⟨fun file hfile => ?_, ?_, ?_, ?_⟩
  · obtain ⟨f, hget⟩ := coh.file file hfile
    exact ⟨f, hkeep _ _ hget⟩
  · rw [hcurrent]
    exact coh.groups.keeps hkeep
  · rw [hcurrent]
    exact coh.datasets.keeps hkeep
  · rw [hcurrent]
    exact coh.attributes.keeps hkeep

/-- A group may be kept under its name. -/
theorem keepGroup (hf : s.currentFile = some f)
    (hget : s.handles.get id = some (.group f (components (cString groupname)))) :
    Coherent named { s with groupIds := s.groupIds.insert groupname id } where
  file := coh.file
  groups := coh.groups.insert hget
    (show groupObject s.currentFile groupname = _ by rw [hf]; rfl) fun _ _ => rfl
  datasets := coh.datasets
  attributes := coh.attributes

/-- A dataset may be kept under its name when it is the one last opened. -/
theorem keepDataset (hf : s.currentFile = some f)
    (hget : s.handles.get id = some (.dataset f (datasetPath groupname dataname))) :
    Coherent
      { named with datasetGroup := Function.update named.datasetGroup dataname (some groupname) }
      { s with datasetIds := s.datasetIds.insert dataname id } where
  file := coh.file
  groups := coh.groups
  datasets := by
    refine coh.datasets.insert hget ?_ fun other hne => ?_
    · change datasetObject s.currentFile _ dataname = _
      simp [datasetObject, hf]
    · change datasetObject s.currentFile _ other = _
      simp [datasetObject, hne]
  attributes := coh.attributes

/-- Likewise an attribute. -/
theorem keepAttribute (hf : s.currentFile = some f)
    (hget : s.handles.get id =
      some (.attribute f (components (cString groupname)) (cString attrname))) :
    Coherent
      { named with
        attributeGroup := Function.update named.attributeGroup attrname (some groupname) }
      { s with attributeIds := s.attributeIds.insert attrname id } where
  file := coh.file
  groups := coh.groups
  datasets := coh.datasets
  attributes := by
    refine coh.attributes.insert hget ?_ fun other hne => ?_
    · change attributeObject s.currentFile _ attrname = _
      simp [attributeObject, hf]
    · change attributeObject s.currentFile _ other = _
      simp [attributeObject, hne]

/-- With no file open nothing is kept. -/
theorem isEmpty_of_no_file (hfile : s.fileId = none) :
    s.groupIds.isEmpty = true ∧ s.datasetIds.isEmpty = true ∧ s.attributeIds.isEmpty = true := by
  have hnone := currentFile_none hfile
  refine ⟨coh.groups.isEmpty fun _ => ?_, coh.datasets.isEmpty fun _ => ?_,
    coh.attributes.isEmpty fun _ => ?_⟩
  · rw [groupObject, hnone]
    rfl
  · rw [datasetObject, hnone]
    rfl
  · rw [attributeObject, hnone]
    rfl

end Coherent

/-- An object that keeps nothing is coherent if its file is open. -/
theorem coherent_of_isEmpty (named : Named)
    (hfile : ∀ id, s.fileId = some id → ∃ f, s.handles.get id = some (.file f))
    (hgroups : s.groupIds.isEmpty = true) (hdatasets : s.datasetIds.isEmpty = true)
    (hattributes : s.attributeIds.isEmpty = true) : Coherent named s where
  file := hfile
  groups := HandleTable.current_of_isEmpty _ _ hgroups
  datasets := HandleTable.current_of_isEmpty _ _ hdatasets
  attributes := HandleTable.current_of_isEmpty _ _ hattributes

end Keeping

/-! ### What each call does -/

section Calls

variable {named : Named} {s s' : Hdf5Class T D} {f : File} {id ret : ℕ}
  {groupname dataname attrname : String}

/-- A group that is not open is looked up as handle 0, which is no handle. -/
theorem groupId_missing (h : s.groupIds[groupname]? = none) :
    s.groupId groupname = (0, { s with groupIds := s.groupIds.insert groupname 0 }) := by
  simp [Hdf5Class.groupId, h]

@[simp] theorem location_zero (lib : Library T D) : lib.location 0 = none :=
  Library.location_closed (HandleTable.get_zero _)

theorem not_coherent_zero (named : Named) (s : Hdf5Class T D) (groupname : String) :
    ¬Coherent named { s with groupIds := s.groupIds.insert groupname 0 } := by
  intro coh
  have hid : (s.groupIds.insert groupname 0)[groupname]? = some 0 :=
    TreeMap.getElem?_insert_self
  obtain ⟨f, -, hget⟩ := coh.group hid
  rw [HandleTable.get_zero] at hget
  cases hget

/-- A handle that has been written to is closed, and must not be kept. -/
theorem not_coherent_writeAndClose (named : Named) {path : Path} {name : String}
    (hid : s.attributeIds[attrname]? = some id)
    (hget : s.handles.get id = some (.attribute f path name)) (value : Value T) :
    ¬Coherent named (s.writeAndClose id value) := by
  intro coh
  obtain ⟨o, -, hopen⟩ := coh.attributes attrname id hid
  change ((s.h5awrite id value).handles.close Object.isAttribute id).get id = some o at hopen
  rw [Library.handles_h5awrite, HandleTable.get_close_self hget rfl] at hopen
  cases hopen

namespace Coherent

variable (coh : Coherent named s)

include coh

/-- A file is opened only when none is open, so that nothing is kept. -/
theorem newFile (named' : Named) (hnone : s.fileId = none) {lib : Library T D}
    (hlib : lib.handles = s.handles.opened alloc (.file f)) :
    Coherent named' { s with toLibrary := lib, fileId := some (alloc.fresh s.handles) } := by
  obtain ⟨hgroups, hdatasets, hattributes⟩ := coh.isEmpty_of_no_file hnone
  refine coherent_of_isEmpty named' (fun id hid => ⟨f, ?_⟩) hgroups hdatasets hattributes
  cases hid
  change lib.handles.get _ = _
  rw [hlib, HandleTable.get_opened_fresh]

/-- `Close` forgets the groups only. -/
theorem close_iff : Coherent named s.close.2 ∧ Documented s s.close.2 (.close : Op T) ↔
    s.datasetIds.isEmpty = true ∧ s.attributeIds.isEmpty = true := by
  cases hfile : s.fileId with
  | none =>
      have hclose : s.close.2 = s := by rw [Hdf5Class.close, hfile]
      have hempty := coh.isEmpty_of_no_file hfile
      rw [hclose]
      exact ⟨fun _ => hempty.2, fun _ => ⟨coh, hempty⟩⟩
  | some file =>
      have hclosed : s.close.2.fileId = none := by rw [Hdf5Class.close, hfile]
      have hgroups : s.close.2.groupIds.isEmpty = true := by
        rw [Hdf5Class.close, hfile]
        exact TreeMap.isEmpty_emptyc
      have hdatasets : s.close.2.datasetIds = s.datasetIds := by
        rw [Hdf5Class.close, hfile]
        rfl
      have hattributes : s.close.2.attributeIds = s.attributeIds := by
        rw [Hdf5Class.close, hfile]
        rfl
      rw [← hdatasets, ← hattributes]
      constructor
      · exact fun h => h.2.2
      · intro h
        refine ⟨coherent_of_isEmpty named (fun id hid => ?_) hgroups h.1 h.2, hgroups, h⟩
        rw [hclosed] at hid
        cases hid

/-- A group that is opened is kept under its name. -/
theorem openGroup (hf : s.currentFile = some f) {lib : Library T D}
    (hlib : lib.handles = s.handles.opened alloc (.group f (components (cString groupname)))) :
    Coherent named { s with
      toLibrary := lib
      groupIds := s.groupIds.insert groupname (alloc.fresh s.handles) } := by
  have hkeep : s.handles.Keeps lib.handles := hlib ▸ HandleTable.keeps_opened alloc _ _
  refine (coh.quiet hkeep).keepGroup (f := f) ?_ ?_
  · exact (coh.currentFile_keeps hkeep).trans hf
  · change lib.handles.get _ = _
    rw [hlib, HandleTable.get_opened_fresh]

theorem groupOpen (h : s.groupOpen alloc groupname = some (ret, s')) :
    Coherent named s' ∧ ∃ id, s'.groupIds[groupname]? = some id := by
  cases hfile : s.fileId with
  | none =>
      rw [Hdf5Class.groupOpen, hfile] at h
      cases h
  | some file =>
      obtain ⟨f, hget⟩ := coh.file file hfile
      rcases Hdf5Class.groupOpen_returns hfile hget h with ⟨hcontains, rfl⟩ | ⟨-, rfl⟩
      · rw [TreeMap.contains_eq_isSome_getElem?, Option.isSome_iff_exists] at hcontains
        exact ⟨coh, hcontains⟩
      · exact ⟨coh.openGroup (currentFile_eq hfile hget) rfl, _, TreeMap.getElem?_insert_self⟩

theorem groupCreate (h : s.groupCreate alloc groupname = some (ret, s')) :
    Coherent named s' := by
  cases hfile : s.fileId with
  | none =>
      rw [Hdf5Class.groupCreate, hfile] at h
      split at h
      · cases h
        exact coh
      · cases h
  | some file =>
      obtain ⟨f, hget⟩ := coh.file file hfile
      rcases Hdf5Class.groupCreate_returns hfile hget h with ⟨-, rfl⟩ | ⟨-, rfl⟩
      · exact coh
      · exact coh.openGroup (currentFile_eq hfile hget) rfl

theorem groupExists (groupname : String) :
    Coherent named (s.groupExists alloc groupname).2 ∧
      Documented s (s.groupExists alloc groupname).2 (.groupExists groupname : Op T) := by
  rw [Hdf5Class.groupExists]
  split
  · exact ⟨coh, rfl, rfl, rfl⟩
  · rename_i file hfile
    split
    · exact ⟨coh, rfl, rfl, rfl⟩
    · rename_i id lib hopen
      rw [Library.h5gopen] at hopen
      split at hopen
      · cases hopen
      · obtain ⟨-, rfl, rfl⟩ := Library.issueIf_some hopen
        exact ⟨coh.quiet (HandleTable.keeps_close_opened alloc _ rfl), rfl, rfl, rfl⟩

theorem listSubGroups {native : NativeOrder} {names : List String}
    (h : s.listSubGroups alloc native groupname = some (names, s')) : Coherent named s' := by
  rw [Hdf5Class.listSubGroups, Option.bind_eq_bind, Option.bind_eq_some_iff] at h
  obtain ⟨⟨ret, s₁⟩, hopen, h⟩ := h
  obtain ⟨coh₁, id, hid⟩ := coh.groupOpen hopen
  simp only [Hdf5Class.groupId_of_cached hid, Option.some.injEq, Prod.mk.injEq] at h
  exact h.2 ▸ coh₁

/-- A query about a group that is open leaves what is kept; about another it enters
handle 0. -/
theorem datasetExists_iff (groupname dataname : String) :
    Coherent named (s.datasetExists alloc groupname dataname).2 ∧
        Documented s (s.datasetExists alloc groupname dataname).2
          (.datasetExists groupname dataname : Op T) ↔
      s.groupIds.contains groupname = true := by
  rw [TreeMap.contains_eq_isSome_getElem?]
  cases hid : s.groupIds[groupname]? with
  | none =>
      rw [Hdf5Class.datasetExists, groupId_missing hid]
      simp only [Library.h5dopen, location_zero]
      exact iff_of_false (fun h => not_coherent_zero named s groupname h.1) (by simp)
  | some id =>
      obtain ⟨f, -, hget⟩ := coh.group hid
      refine iff_of_true ?_ rfl
      rw [Hdf5Class.datasetExists, Hdf5Class.groupId_of_cached hid]
      simp only [Library.h5dopen_group hget]
      cases ((s.contents f).datasets _).isSome with
      | false => exact ⟨coh, rfl, rfl, rfl⟩
      | true => exact ⟨coh.quiet (HandleTable.keeps_close_opened alloc _ rfl), rfl, rfl, rfl⟩

theorem attributeExists_iff (groupname attrname : String) :
    Coherent named (s.attributeExists alloc groupname attrname).2 ∧
        Documented s (s.attributeExists alloc groupname attrname).2
          (.attributeExists groupname attrname : Op T) ↔
      s.groupIds.contains groupname = true := by
  rw [TreeMap.contains_eq_isSome_getElem?]
  cases hid : s.groupIds[groupname]? with
  | none =>
      rw [Hdf5Class.attributeExists, groupId_missing hid]
      simp only [Library.h5aopen, location_zero]
      exact iff_of_false (fun h => not_coherent_zero named s groupname h.1) (by simp)
  | some id =>
      obtain ⟨f, -, hget⟩ := coh.group hid
      refine iff_of_true ?_ rfl
      rw [Hdf5Class.attributeExists, Hdf5Class.groupId_of_cached hid]
      simp only [Library.h5aopen_group hget]
      cases ((s.contents f).attributes _ _).isSome with
      | false => exact ⟨coh, rfl, rfl, rfl⟩
      | true => exact ⟨coh.quiet (HandleTable.keeps_close_opened alloc _ rfl), rfl, rfl, rfl⟩

/-- The group in which a dataset that is kept was last opened. -/
theorem datasetKept (hid : s.datasetIds[dataname]? = some id) :
    ∃ f before, s.currentFile = some f ∧ named.datasetGroup dataname = some before ∧
      s.handles.get id = some (.dataset f (datasetPath before dataname)) := by
  obtain ⟨o, ho, hget⟩ := coh.datasets dataname id hid
  obtain ⟨f, hf, ho⟩ := Option.bind_eq_some_iff.mp ho
  obtain ⟨before, hbefore, rfl⟩ := Option.map_eq_some_iff.mp ho
  exact ⟨f, before, hf, hbefore, hget⟩

theorem attributeKept (hid : s.attributeIds[attrname]? = some id) :
    ∃ f before, s.currentFile = some f ∧ named.attributeGroup attrname = some before ∧
      s.handles.get id =
        some (.attribute f (components (cString before)) (cString attrname)) := by
  obtain ⟨o, ho, hget⟩ := coh.attributes attrname id hid
  obtain ⟨f, hf, ho⟩ := Option.bind_eq_some_iff.mp ho
  obtain ⟨before, hbefore, rfl⟩ := Option.map_eq_some_iff.mp ho
  exact ⟨f, before, hf, hbefore, hget⟩

/-- A dataset that is kept stays the one named if both groups lead to the same place. -/
theorem renameDataset {before : String} (hbefore : named.datasetGroup dataname = some before)
    (hpath : datasetPath before dataname = datasetPath groupname dataname) :
    Coherent
      { named with datasetGroup := Function.update named.datasetGroup dataname (some groupname) }
      s where
  file := coh.file
  groups := coh.groups
  datasets := by
    intro other id hid
    by_cases hne : other = dataname
    · subst hne
      obtain ⟨f, before', hf, hbefore', hget⟩ := coh.datasetKept hid
      rw [hbefore] at hbefore'
      cases hbefore'
      refine ⟨_, ?_, hget⟩
      simp [datasetObject, hf, hpath]
    · obtain ⟨o, ho, hget⟩ := coh.datasets other id hid
      refine ⟨o, ?_, hget⟩
      rw [← ho]
      simp [datasetObject, hne]
  attributes := coh.attributes

theorem renameAttribute {before : String} (hbefore : named.attributeGroup attrname = some before)
    (hpath : components (cString before) = components (cString groupname)) :
    Coherent
      { named with
        attributeGroup := Function.update named.attributeGroup attrname (some groupname) }
      s where
  file := coh.file
  groups := coh.groups
  datasets := coh.datasets
  attributes := by
    intro other id hid
    by_cases hne : other = attrname
    · subst hne
      obtain ⟨f, before', hf, hbefore', hget⟩ := coh.attributeKept hid
      rw [hbefore] at hbefore'
      cases hbefore'
      refine ⟨_, ?_, hget⟩
      simp [attributeObject, hf, hpath]
    · obtain ⟨o, ho, hget⟩ := coh.attributes other id hid
      refine ⟨o, ?_, hget⟩
      rw [← ho]
      simp [attributeObject, hne]

/-- What `DatasetOpen` has done when it returns. -/
theorem datasetOpen_returns (h : s.datasetOpen alloc groupname dataname = some (ret, s')) :
    ((∃ id, s.datasetIds[dataname]? = some id) ∧ s' = s) ∨
      s.datasetIds[dataname]? = none ∧ ∃ f, s.currentFile = some f ∧
        s' = { s with
          toLibrary := (s.issue alloc (.dataset f (datasetPath groupname dataname))).2
          datasetIds := s.datasetIds.insert dataname (alloc.fresh s.handles) } := by
  simp only [Hdf5Class.datasetOpen, TreeMap.contains_eq_isSome_getElem?] at h
  split at h
  · cases h
  · cases hkept : s.datasetIds[dataname]? with
    | some id =>
        simp only [hkept, Option.isSome_some, if_true, Option.some.injEq, Prod.mk.injEq] at h
        exact Or.inl ⟨⟨id, rfl⟩, h.2.symm⟩
    | none =>
        simp only [hkept, Option.isSome_none, Bool.false_eq_true, if_false] at h
        cases hid : s.groupIds[groupname]? with
        | none =>
            simp only [groupId_missing hid, Library.h5dopen, location_zero] at h
            cases h
        | some id =>
            obtain ⟨f, hf, hget⟩ := coh.group hid
            simp only [Hdf5Class.groupId_of_cached hid, Library.h5dopen_group hget] at h
            split at h
            · cases h
            · rename_i fresh lib hdata
              cases h
              obtain ⟨-, rfl, rfl⟩ := Library.issueIf_some hdata
              exact Or.inr ⟨rfl, f, hf, rfl⟩

/-- A handle kept under the name is returned whatever the group. -/
theorem datasetOpen_iff (h : s.datasetOpen alloc groupname dataname = some (ret, s')) :
    Coherent
        { named with datasetGroup := Function.update named.datasetGroup dataname (some groupname) }
        s' ∧
      Documented s s' (.datasetOpen groupname dataname : Op T) ↔
    Fine named s (.datasetOpen groupname dataname : Op T) := by
  rw [Fine, TreeMap.contains_eq_isSome_getElem?]
  rcases coh.datasetOpen_returns h with ⟨⟨id, hkept⟩, rfl⟩ | ⟨hnone, f, hf, rfl⟩
  · obtain ⟨f, before, hf, hbefore, hget⟩ := coh.datasetKept hkept
    constructor
    · rintro ⟨-, f', id', -, hid', hget'⟩ -
      rw [hkept] at hid'
      cases hid'
      have hsame := Option.some.inj (hget.symm.trans hget')
      exact ⟨before, hbefore, (Object.dataset.inj hsame).2⟩
    · intro hfine
      obtain ⟨before', hbefore', hpath⟩ := hfine (by rw [hkept]; rfl)
      rw [hbefore] at hbefore'
      cases hbefore'
      exact ⟨coh.renameDataset hbefore hpath, f, id, hf, hkept, hpath ▸ hget⟩
  · let o := Object.dataset f (datasetPath groupname dataname)
    have hkeep : s.handles.Keeps (s.issue alloc o).2.handles := HandleTable.keeps_opened alloc _ _
    have hcurrent := (coh.currentFile_keeps hkeep).trans hf
    have hnew : (s.issue alloc o).2.handles.get (alloc.fresh s.handles) = some o :=
      HandleTable.get_opened_fresh _ _
    refine iff_of_true ⟨(coh.quiet hkeep).keepDataset hcurrent hnew, ?_⟩ (by simp [hnone])
    exact ⟨f, _, hcurrent, TreeMap.getElem?_insert_self, hnew⟩

/-- What `AttributeOpen` has done when it returns. -/
theorem attributeOpen_returns (h : s.attributeOpen alloc groupname attrname = some (ret, s')) :
    ((∃ id, s.attributeIds[attrname]? = some id) ∧ s' = s) ∨
      s.attributeIds[attrname]? = none ∧ ∃ f, s.currentFile = some f ∧
        s' = { s with
          toLibrary := (s.issue alloc
            (.attribute f (components (cString groupname)) (cString attrname))).2
          attributeIds := s.attributeIds.insert attrname (alloc.fresh s.handles) } := by
  simp only [Hdf5Class.attributeOpen, TreeMap.contains_eq_isSome_getElem?] at h
  split at h
  · cases h
  · cases hkept : s.attributeIds[attrname]? with
    | some id =>
        simp only [hkept, Option.isSome_some, if_true, Option.some.injEq, Prod.mk.injEq] at h
        exact Or.inl ⟨⟨id, rfl⟩, h.2.symm⟩
    | none =>
        simp only [hkept, Option.isSome_none, Bool.false_eq_true, if_false] at h
        cases hid : s.groupIds[groupname]? with
        | none =>
            simp only [groupId_missing hid, Library.h5aopen, location_zero] at h
            cases h
        | some id =>
            obtain ⟨f, hf, hget⟩ := coh.group hid
            simp only [Hdf5Class.groupId_of_cached hid, Library.h5aopen_group hget] at h
            split at h
            · cases h
            · rename_i fresh lib hattr
              cases h
              obtain ⟨-, rfl, rfl⟩ := Library.issueIf_some hattr
              exact Or.inr ⟨rfl, f, hf, rfl⟩

theorem attributeOpen_iff (h : s.attributeOpen alloc groupname attrname = some (ret, s')) :
    Coherent
        { named with
          attributeGroup := Function.update named.attributeGroup attrname (some groupname) }
        s' ∧
      Documented s s' (.attributeOpen groupname attrname : Op T) ↔
    Fine named s (.attributeOpen groupname attrname : Op T) := by
  rw [Fine, TreeMap.contains_eq_isSome_getElem?]
  rcases coh.attributeOpen_returns h with ⟨⟨id, hkept⟩, rfl⟩ | ⟨hnone, f, hf, rfl⟩
  · obtain ⟨f, before, hf, hbefore, hget⟩ := coh.attributeKept hkept
    constructor
    · rintro ⟨coh', -⟩ -
      obtain ⟨f', before', -, hbefore', hget'⟩ := coh'.attributeKept hkept
      change Function.update named.attributeGroup attrname (some groupname) attrname = _ at hbefore'
      rw [Function.update_self] at hbefore'
      cases hbefore'
      have hsame := Option.some.inj (hget.symm.trans hget')
      exact ⟨before, hbefore, (Object.attribute.inj hsame).2.1⟩
    · intro hfine
      obtain ⟨before', hbefore', hpath⟩ := hfine (by rw [hkept]; rfl)
      rw [hbefore] at hbefore'
      cases hbefore'
      exact ⟨coh.renameAttribute hbefore hpath, trivial⟩
  · let o := Object.attribute f (components (cString groupname)) (cString attrname)
    have hkeep : s.handles.Keeps (s.issue alloc o).2.handles := HandleTable.keeps_opened alloc _ _
    have hcurrent := (coh.currentFile_keeps hkeep).trans hf
    have hnew : (s.issue alloc o).2.handles.get (alloc.fresh s.handles) = some o :=
      HandleTable.get_opened_fresh _ _
    exact iff_of_true ⟨(coh.quiet hkeep).keepAttribute hcurrent hnew, trivial⟩ (by simp [hnone])

/-- An attribute that is created is closed again. -/
theorem createAndWrite {initial value : Value T}
    (h : s.createAndWrite alloc groupname attrname initial value = some (ret, s')) :
    Coherent named s' := by
  rw [Hdf5Class.createAndWrite] at h
  cases hid : s.groupIds[groupname]? with
  | none =>
      simp only [groupId_missing hid, Library.h5acreate, location_zero] at h
      cases h
  | some id =>
      obtain ⟨f, hf, hget⟩ := coh.group hid
      simp only [Hdf5Class.groupId_of_cached hid, Library.h5acreate,
        Library.location_group hget] at h
      split at h
      · cases h
      · rename_i fresh lib hcreate
        cases h
        split at hcreate
        · cases hcreate
        · obtain ⟨-, rfl, rfl⟩ := Library.issueIf_some hcreate
          refine coh.quiet ?_
          rw [Library.h5aclose, Library.handles_h5awrite]
          exact HandleTable.keeps_close_opened alloc _ rfl

/-- A number is written to an attribute that exists through the handle kept under its
name, which is closed then. -/
theorem attributeWrite_iff [Zero T] {value : T}
    (h : s.attributeWrite alloc groupname attrname value = some (ret, s')) :
    Coherent named s' ∧ Documented s s' (.attributeWrite groupname attrname value : Op T) ↔
      Fine named s (.attributeWrite groupname attrname value : Op T) := by
  rw [Hdf5Class.attributeWrite] at h
  cases hid : s.groupIds[groupname]? with
  | none =>
      -- The number is to be created in the group of handle 0.
      have hzero := Hdf5Class.groupId_of_cached (s := { s with
        groupIds := s.groupIds.insert groupname 0 }) TreeMap.getElem?_insert_self
      rw [Hdf5Class.attributeExists, groupId_missing hid] at h
      simp only [Library.h5aopen, location_zero, Hdf5Class.createAndWrite, hzero,
        Library.h5acreate] at h
      cases h
  | some id =>
      obtain ⟨f, hf, hget⟩ := coh.group hid
      rw [Fine]
      simp only [hf, Option.some.injEq, forall_eq']
      cases hstored :
          (s.contents f).attributes (components (cString groupname)) (cString attrname) with
      | none =>
          rw [Hdf5Class.attributeExists_absent hid hget hstored] at h
          exact iff_of_true ⟨coh.createAndWrite h, trivial⟩ rfl
      | some stored =>
          rw [Hdf5Class.attributeExists_present hid hget hstored] at h
          simp only [Option.bind_eq_bind, Option.bind_eq_some_iff] at h
          obtain ⟨⟨ret', s₁⟩, hopen, h⟩ := h
          cases h
          let o := Object.attribute f (components (cString groupname)) (cString attrname)
          have coh₀ : Coherent named { s with toLibrary := s.probe alloc o Object.isAttribute } :=
            coh.quiet (HandleTable.keeps_close_opened alloc _ rfl)
          refine iff_of_false (fun hcoh => ?_) (by simp)
          rcases coh₀.attributeOpen_returns hopen with ⟨⟨kept, hkept⟩, rfl⟩ | ⟨-, f', hf', rfl⟩
          · obtain ⟨f', before, -, -, hopened⟩ := coh₀.attributeKept hkept
            rw [hkept] at hcoh
            exact not_coherent_writeAndClose named hkept hopened _ hcoh.1
          · have hself : ((s.attributeIds.insert attrname
                (alloc.fresh (s.probe alloc o Object.isAttribute).handles))[attrname]?) =
                  some (alloc.fresh (s.probe alloc o Object.isAttribute).handles) :=
              TreeMap.getElem?_insert_self
            rw [hself] at hcoh
            exact not_coherent_writeAndClose named hself (HandleTable.get_opened_fresh _ _) _ hcoh.1

/-- A read may open its group, and may leave a handle open that is not kept. -/
theorem attributeReadWith {α : Type} {convert : Value T → Option α} {result : ℤ × Option α}
    (h : s.attributeReadWith alloc convert groupname attrname = some (result, s')) :
    Coherent named s' := by
  rw [Hdf5Class.attributeReadWith, Option.bind_eq_bind, Option.bind_eq_some_iff] at h
  obtain ⟨⟨ret, s₁⟩, hopen, h⟩ := h
  obtain ⟨coh₁, id, hid⟩ := coh.groupOpen hopen
  obtain ⟨f, -, hget⟩ := coh₁.group hid
  simp only [Hdf5Class.groupId_of_cached hid, Library.h5aopen_group hget] at h
  split at h
  · cases h
    exact coh₁
  · rename_i fresh lib hattr
    obtain ⟨-, rfl, rfl⟩ := Library.issueIf_some hattr
    split at h
    · cases h
      exact coh₁.quiet (HandleTable.keeps_opened alloc _ _)
    · cases h
      exact coh₁.quiet (HandleTable.keeps_close_opened alloc _ rfl)

/-- A call that returns leaves an object coherent, and has done what it says, if and
only if it meets the condition. -/
theorem perform_iff [Zero T] {op : Op T} (h : op.perform alloc s = some s') :
    Coherent (op.name named) s' ∧ Documented s s' op ↔ Fine named s op := by
  cases op with
  | create filename overwriteExisting permitted =>
      obtain ⟨⟨ret, s₁⟩, hcreate, rfl⟩ := Option.map_eq_some_iff.mp h
      obtain ⟨hnone, rfl⟩ := Hdf5Class.create_returns hcreate
      exact iff_of_true ⟨coh.newFile named hnone rfl, trivial⟩ trivial
  | openFile filename readonly permitted =>
      obtain ⟨⟨ret, s₁⟩, hopen, rfl⟩ := Option.map_eq_some_iff.mp h
      obtain ⟨hnone, rfl⟩ := Hdf5Class.openFile_returns hopen
      exact iff_of_true ⟨coh.newFile named hnone rfl, trivial⟩ trivial
  | close =>
      cases h
      exact coh.close_iff
  | groupCreate groupname =>
      obtain ⟨⟨ret, s₁⟩, hcreate, rfl⟩ := Option.map_eq_some_iff.mp h
      exact iff_of_true ⟨coh.groupCreate hcreate, trivial⟩ trivial
  | groupOpen groupname =>
      obtain ⟨⟨ret, s₁⟩, hopen, rfl⟩ := Option.map_eq_some_iff.mp h
      exact iff_of_true ⟨(coh.groupOpen hopen).1, trivial⟩ trivial
  | groupExists groupname =>
      cases h
      exact iff_of_true (coh.groupExists groupname) trivial
  | listSubGroups native groupname =>
      obtain ⟨⟨names, s₁⟩, hlist, rfl⟩ := Option.map_eq_some_iff.mp h
      exact iff_of_true ⟨coh.listSubGroups hlist, trivial⟩ trivial
  | datasetOpen groupname dataname =>
      obtain ⟨⟨ret, s₁⟩, hopen, rfl⟩ := Option.map_eq_some_iff.mp h
      exact coh.datasetOpen_iff hopen
  | datasetExists groupname dataname =>
      cases h
      exact coh.datasetExists_iff groupname dataname
  | attributeOpen groupname attrname =>
      obtain ⟨⟨ret, s₁⟩, hopen, rfl⟩ := Option.map_eq_some_iff.mp h
      exact coh.attributeOpen_iff hopen
  | attributeExists groupname attrname =>
      cases h
      exact coh.attributeExists_iff groupname attrname
  | attributeWrite groupname attrname value =>
      obtain ⟨⟨ret, s₁⟩, hwrite, rfl⟩ := Option.map_eq_some_iff.mp h
      exact coh.attributeWrite_iff hwrite
  | attributeWriteText groupname attrname value =>
      obtain ⟨⟨ret, s₁⟩, hwrite, rfl⟩ := Option.map_eq_some_iff.mp h
      exact iff_of_true ⟨coh.createAndWrite hwrite, trivial⟩ trivial
  | attributeRead groupname attrname =>
      obtain ⟨⟨result, s₁⟩, hread, rfl⟩ := Option.map_eq_some_iff.mp h
      exact iff_of_true ⟨coh.attributeReadWith hread, trivial⟩ trivial
  | attributeReadText groupname attrname =>
      obtain ⟨⟨result, s₁⟩, hread, rfl⟩ := Option.map_eq_some_iff.mp h
      exact iff_of_true ⟨coh.attributeReadWith hread, trivial⟩ trivial

end Coherent

end Calls

/-! ### Sequences of calls -/

theorem StaysCoherent.coherent [Zero T] {ops : List (Op T)} {named : Named} {s : Hdf5Class T D}
    (h : StaysCoherent alloc ops named s) : Coherent named s := by
  cases ops with
  | nil => exact h
  | cons op ops => exact h.1

theorem staysCoherent_iff_of_coherent [Zero T] (ops : List (Op T)) {named : Named}
    {s : Hdf5Class T D} (coh : Coherent named s) :
    StaysCoherent alloc ops named s ↔ AllFine alloc ops named s := by
  induction ops generalizing named s with
  | nil => exact iff_of_true coh trivial
  | cons op ops ih =>
      rw [StaysCoherent, AllFine, and_iff_right coh]
      refine forall_congr' fun s' => forall_congr' fun hperform => ?_
      have hiff := coh.perform_iff hperform
      constructor
      · rintro ⟨hdoc, hstays⟩
        exact ⟨hiff.mp ⟨hstays.coherent, hdoc⟩, (ih hstays.coherent).mp hstays⟩
      · rintro ⟨hfine, hall⟩
        obtain ⟨coh', hdoc⟩ := hiff.mpr hfine
        exact ⟨hdoc, (ih coh').mpr hall⟩

/-- A new object keeps nothing. -/
theorem coherent_new (lib : Library T D) : Coherent .nothing (.new lib) :=
  coherent_of_isEmpty _ (fun _ hid => by cases hid) TreeMap.isEmpty_emptyc
    TreeMap.isEmpty_emptyc TreeMap.isEmpty_emptyc

/-- In every state that a new object reaches by calls that return, every handle kept is
open and of the object named, if and only if every call meets the condition. -/
theorem stays_coherent_iff [Zero T] (lib : Library T D) (ops : List (Op T)) :
    StaysCoherent alloc ops .nothing (.new lib) ↔ AllFine alloc ops .nothing (.new lib) :=
  staysCoherent_iff_of_coherent ops (coherent_new lib)

example : AllFine (.next Object)
    [.create "perf.h5" false true, .groupCreate "timings", .datasetExists "timings" "PTable",
      .attributeWrite "timings" "num_measurements" (0 : ℤ),
      .attributeRead "timings" "num_measurements", .close]
    .nothing (.new { handles := .empty, disk := fun _ => none } : Hdf5Class ℤ Unit) := by
  decide +kernel

/-- Writing an attribute that exists leaves a closed handle. -/
theorem second_write_keeps_closed :
    ¬StaysCoherent (.next Object)
      [.create "perf.h5" false true, .groupCreate "timings",
        .attributeWrite "timings" "num_measurements" (0 : ℤ),
        .attributeWrite "timings" "num_measurements" 1]
      .nothing (.new { handles := .empty, disk := fun _ => none } : Hdf5Class ℤ Unit) := by
  rw [staysCoherent_iff_of_coherent _ (coherent_new _)]
  decide +kernel

end Grvy.Hdf5
