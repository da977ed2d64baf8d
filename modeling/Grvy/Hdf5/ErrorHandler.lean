import Grvy.Hdf5.Coherence
import Grvy.Lib.SavedSetting

/-!
The automatic error handler of HDF5.

`silence_hdf_error_handler` saves the handler that is installed and installs
none, `restore_hdf_error_handler` installs what was saved. The object has one
place to save a handler in, and `PTableOpen` calls `GroupOpen` between the two:
if the group is not open already, the handler saved first is overwritten with
none, and none is what is installed when `PTableOpen` returns.

Here are the calls again with what they do to the handler. Without the handler
they are the calls of `GRVY_HDF5_Class`.
-/

namespace Grvy.Hdf5

open Std (TreeMap)
open Grvy.Lib
open Grvy.Lib.SettingM

variable {T D : Type}

/-- What `H5Eset_auto2` installs: the addresses of a function and of its data. -/
structure Handler where
  func : ℕ
  data : ℕ
  deriving DecidableEq

/-- No handler: both addresses are `NULL`. -/
def Handler.null : Handler := { func := 0, data := 0 }

/-- An object with the handler installed in HDF5, and `error_orig_func` and
`error_orig_data` of the object. -/
abbrev Handled (T D : Type) := WithSetting (Hdf5Class T D) Handler

abbrev HandledM (T D α : Type) := SettingM (Hdf5Class T D) Handler α

/-! ### Packet tables -/

namespace Hdf5Class

/-- `PTableExists`; `isTable` is what `H5PTopen` asks of a dataset. -/
def ptableExists (alloc : Allocator Object) (isTable : D → Bool) (groupname tablename : String)
    (s : Hdf5Class T D) : Bool × Hdf5Class T D :=
  let (loc, s) := s.groupId groupname
  match s.location loc with
  | none => (false, s)
  | some (f, path) =>
      let p := resolve path (cString tablename)
      match s.issueIf alloc (((s.contents f).datasets p).any isTable) (.dataset f p) with
      | (none, _) => (false, s)
      | (some id, lib) => (true, { s with toLibrary := lib.h5dclose id })

/-- What `PTableOpen` does when the group is open. -/
def tableOpen (alloc : Allocator Object) (groupname tablename : String) (s : Hdf5Class T D) :
    Option (ℕ × Hdf5Class T D) :=
  let (loc, s) := s.groupId groupname
  match s.h5dopen alloc loc (cString tablename) with
  | (none, _) => none
  | (some id, lib) => some (id, { s with toLibrary := lib })

/-- What `ListSubGroups` does when the group is open. -/
def subGroups (native : NativeOrder) (groupname : String) (s : Hdf5Class T D) :
    Option (List String × Hdf5Class T D) :=
  let (id, s) := s.groupId groupname
  let names :=
    match s.location id with
    | some (f, path) => (s.contents f).subgroups path
    | none => []
  some (native.order names, s)

/-- `H5Aopen` in a group. -/
def openIn (alloc : Allocator Object) (groupname attrname : String) (s : Hdf5Class T D) :
    Option (Option ℕ × Hdf5Class T D) :=
  let (loc, s) := s.groupId groupname
  match s.h5aopen alloc loc (cString attrname) with
  | (none, _) => some (none, s)
  | (some id, lib) => some (some id, { s with toLibrary := lib })

/-- `H5Aread`, which changes nothing. -/
def readIn {α : Type} (convert : Value T → Option α) (id : ℕ) (s : Hdf5Class T D) :
    Option (Option α × Hdf5Class T D) :=
  some ((s.h5aread id).bind convert, s)

/-- `H5Aclose` -/
def closeAttribute (id : ℕ) (s : Hdf5Class T D) : Option (Unit × Hdf5Class T D) :=
  some ((), { s with toLibrary := s.h5aclose id })

end Hdf5Class

/-! ### The calls with the handler -/

namespace Handled

section Calls

variable (alloc : Allocator Object)

/-- What is enclosed by `silence_hdf_error_handler` and `restore_hdf_error_handler`. -/
def silently {α : Type} (x : HandledM T D α) : HandledM T D α := during .null x

/-- A call that needs no open file: HDF5 fails where there is no handle. -/
def query {α : Type} (op : Hdf5Class T D → α × Hdf5Class T D) : HandledM T D α :=
  silently (act fun s => some (op s))

/-- A call that exits if a file is open. -/
def openFresh (op : Hdf5Class T D → Option (ℕ × Hdf5Class T D)) : HandledM T D ℕ := do
  match ← look Hdf5Class.fileId with
  | some _ => act fun _ => none
  | none => silently (act op)

/-- A call that exits if no file is open, and returns 0 at once if the handle is kept. -/
def openKept (kept : Hdf5Class T D → Bool) (op : Hdf5Class T D → Option (ℕ × Hdf5Class T D)) :
    HandledM T D ℕ := do
  match ← look Hdf5Class.fileId with
  | none => act fun _ => none
  | some _ => if ← look kept then pure 0 else silently (act op)

def create (filename : String) (overwriteExisting permitted : Bool) : HandledM T D ℕ :=
  openFresh (Hdf5Class.create alloc filename overwriteExisting permitted)

/-- `Exists` -/
def fileExists (filename : String) (permitted : Bool) : HandledM T D Bool :=
  query (Hdf5Class.fileExists alloc filename permitted)

/-- `Open` -/
def openFile (filename : String) (readonly permitted : Bool) : HandledM T D ℕ :=
  openFresh (Hdf5Class.openFile alloc filename readonly permitted)

def close : HandledM T D ℕ := act fun s => some s.close

def groupCreate (groupname : String) : HandledM T D ℕ := act (Hdf5Class.groupCreate alloc groupname)

def groupExists (groupname : String) : HandledM T D Bool :=
  query (Hdf5Class.groupExists alloc groupname)

def groupOpen (groupname : String) : HandledM T D ℕ :=
  openKept (fun s => s.groupIds.contains groupname) (Hdf5Class.groupOpen alloc groupname)

def listSubGroups (native : NativeOrder) (groupname : String) : HandledM T D (List String) := do
  let _ ← groupOpen alloc groupname
  act (Hdf5Class.subGroups native groupname)

def datasetExists (groupname dataname : String) : HandledM T D Bool :=
  query (Hdf5Class.datasetExists alloc groupname dataname)

def datasetOpen (groupname dataname : String) : HandledM T D ℕ :=
  openKept (fun s => s.datasetIds.contains dataname)
    (Hdf5Class.datasetOpen alloc groupname dataname)

def attributeExists (groupname attrname : String) : HandledM T D Bool :=
  query (Hdf5Class.attributeExists alloc groupname attrname)

def attributeOpen (groupname attrname : String) : HandledM T D ℕ :=
  openKept (fun s => s.attributeIds.contains attrname)
    (Hdf5Class.attributeOpen alloc groupname attrname)

/-- `AttributeWrite` of a number. -/
def attributeWrite [Zero T] (groupname attrname : String) (value : T) : HandledM T D ℕ := do
  if ← attributeExists alloc groupname attrname then
    let _ ← attributeOpen alloc groupname attrname
    act fun s => some (0, s.writeAndClose (s.attributeIds[attrname]?.getD 0) (.num value))
  else act (Hdf5Class.createAndWrite alloc groupname attrname (.num 0) (.num value))

/-- `AttributeWrite` of a string. -/
def attributeWriteText (groupname attrname value : String) : HandledM T D ℕ :=
  act (Hdf5Class.attributeWriteText alloc groupname attrname value)

/-- `AttributeRead`. The handler is restored before the attribute is closed, and where
the attribute cannot be read. -/
def attributeReadWith {α : Type} (convert : Value T → Option α) (groupname attrname : String) :
    HandledM T D (ℤ × Option α) := do
  let _ ← groupOpen alloc groupname
  match ← act (Hdf5Class.openIn alloc groupname attrname) with
  | none => pure (-1, none)
  | some id =>
      match ← silently (act (Hdf5Class.readIn convert id)) with
      | none => pure (-1, none)
      | some value =>
          act (Hdf5Class.closeAttribute id)
          pure (0, some value)

def ptableExists (isTable : D → Bool) (groupname tablename : String) : HandledM T D Bool :=
  query (Hdf5Class.ptableExists alloc isTable groupname tablename)

/-- `PTableOpen` opens the group after it has silenced the handler. -/
def ptableOpen (groupname tablename : String) : HandledM T D ℕ :=
  silently do
    let _ ← groupOpen alloc groupname
    act (Hdf5Class.tableOpen alloc groupname tablename)

end Calls

/-! ### Without the handler -/

section Erasing

theorem openKept_run {kept : Hdf5Class T D → Bool}
    {op : Hdf5Class T D → Option (ℕ × Hdf5Class T D)} (s : Handled T D) :
    (openKept kept op).run s =
      if s.state.fileId = none then none
      else if kept s.state then some (0, s) else (silently (act op)).run s := by
  cases hfile : s.state.fileId with
  | none => simp [openKept, look, act, hfile, StateT.run, bind, StateT.bind]
  | some file =>
      cases hkept : kept s.state with
      | true =>
          simp only [openKept, look, hfile, StateT.run, bind, StateT.bind, Option.bind_some, hkept]
          rfl
      | false => simp [openKept, look, hfile, hkept, StateT.run, bind, StateT.bind]

theorem openFresh_run {op : Hdf5Class T D → Option (ℕ × Hdf5Class T D)} (s : Handled T D) :
    (openFresh op).run s =
      if s.state.fileId = none then (silently (act op)).run s else none := by
  cases hfile : s.state.fileId with
  | none => simp [openFresh, look, hfile, StateT.run, bind, StateT.bind]
  | some file => simp [openFresh, look, act, hfile, StateT.run, bind, StateT.bind]

theorem erases_query {α : Type} (op : Hdf5Class T D → α × Hdf5Class T D) :
    Erases (query op) fun s => some (op s) :=
  (erases_act fun s => some (op s)).during .null

theorem erases_openFresh {op : Hdf5Class T D → Option (ℕ × Hdf5Class T D)}
    (hopen : ∀ s, s.fileId ≠ none → op s = none) : Erases (openFresh op) op := by
  intro s
  rw [openFresh_run]
  split
  · exact (erases_act op).during .null s
  · rename_i hfile
    exact (hopen s.state hfile).symm

theorem erases_openKept {kept : Hdf5Class T D → Bool}
    {op : Hdf5Class T D → Option (ℕ × Hdf5Class T D)}
    (hnone : ∀ s, s.fileId = none → op s = none)
    (hkept : ∀ s, s.fileId ≠ none → kept s = true → op s = some (0, s)) :
    Erases (openKept kept op) op := by
  intro s
  rw [openKept_run]
  split
  · rename_i hfile
    exact (hnone s.state hfile).symm
  · rename_i hfile
    split
    · rename_i hk
      exact (hkept s.state hfile hk).symm
    · exact (erases_act op).during .null s

variable {alloc : Allocator Object} {groupname attrname : String}

theorem erases_groupOpen (groupname : String) :
    Erases (groupOpen alloc groupname : HandledM T D ℕ) (Hdf5Class.groupOpen alloc groupname) := by
  apply erases_openKept
  · intro s hfile
    rw [Hdf5Class.groupOpen, hfile]
  · intro s hfile hkept
    obtain ⟨file, hfile⟩ := Option.ne_none_iff_exists'.mp hfile
    simp [Hdf5Class.groupOpen, hfile, hkept]

theorem erases_datasetOpen (groupname dataname : String) :
    Erases (datasetOpen alloc groupname dataname : HandledM T D ℕ)
      (Hdf5Class.datasetOpen alloc groupname dataname) := by
  apply erases_openKept
  · intro s hfile
    rw [Hdf5Class.datasetOpen, hfile]
  · intro s hfile hkept
    obtain ⟨file, hfile⟩ := Option.ne_none_iff_exists'.mp hfile
    simp [Hdf5Class.datasetOpen, hfile, hkept]

theorem erases_attributeOpen (groupname attrname : String) :
    Erases (attributeOpen alloc groupname attrname : HandledM T D ℕ)
      (Hdf5Class.attributeOpen alloc groupname attrname) := by
  apply erases_openKept
  · intro s hfile
    rw [Hdf5Class.attributeOpen, hfile]
  · intro s hfile hkept
    obtain ⟨file, hfile⟩ := Option.ne_none_iff_exists'.mp hfile
    simp [Hdf5Class.attributeOpen, hfile, hkept]

theorem erases_listSubGroups (native : NativeOrder) (groupname : String) :
    Erases (listSubGroups alloc native groupname : HandledM T D (List String))
      (Hdf5Class.listSubGroups alloc native groupname) :=
  (erases_groupOpen groupname).bind fun _ => erases_act (Hdf5Class.subGroups native groupname)

theorem erases_ptableOpen (groupname tablename : String) :
    Erases (ptableOpen alloc groupname tablename : HandledM T D ℕ)
      (Hdf5Class.ptableOpen alloc groupname tablename) :=
  ((erases_groupOpen groupname).bind fun _ =>
    erases_act (Hdf5Class.tableOpen alloc groupname tablename)).during .null

theorem erases_attributeWrite [Zero T] (groupname attrname : String) (value : T) :
    Erases (attributeWrite alloc groupname attrname value : HandledM T D ℕ)
      (Hdf5Class.attributeWrite alloc groupname attrname value) := by
  let written : Bool → StateT (Hdf5Class T D) Option ℕ := fun found =>
    if found then do
      let _ ← (Hdf5Class.attributeOpen alloc groupname attrname : StateT (Hdf5Class T D) Option ℕ)
      fun s => some (0, s.writeAndClose (s.attributeIds[attrname]?.getD 0) (.num value))
    else Hdf5Class.createAndWrite alloc groupname attrname (.num 0) (.num value)
  have herase : Erases (attributeWrite alloc groupname attrname value : HandledM T D ℕ)
      ((fun s => some (s.attributeExists alloc groupname attrname)) >>= written) := by
    refine (erases_query (Hdf5Class.attributeExists alloc groupname attrname)).bind fun found => ?_
    cases found with
    | true => exact (erases_attributeOpen groupname attrname).bind fun _ => erases_act _
    | false => exact erases_act _
  -- now both sides are run, for either answer of `attributeExists`
  intro s
  rw [herase s]
  change (some (s.state.attributeExists alloc groupname attrname)).bind
    (fun r => written r.1 r.2) = Hdf5Class.attributeWrite alloc groupname attrname value s.state
  rw [Hdf5Class.attributeWrite]
  cases s.state.attributeExists alloc groupname attrname with
  | mk found st => cases found <;> rfl

theorem erases_attributeReadWith {α : Type} (convert : Value T → Option α)
    (groupname attrname : String) :
    Erases (attributeReadWith alloc convert groupname attrname : HandledM T D (ℤ × Option α))
      (Hdf5Class.attributeReadWith alloc convert groupname attrname) := by
  let finish : ℕ → Option α → StateT (Hdf5Class T D) Option (ℤ × Option α) := fun id value =>
    match value with
    | none => pure (-1, none)
    | some value => do
        (Hdf5Class.closeAttribute id : StateT (Hdf5Class T D) Option Unit)
        pure (0, some value)
  let read : Option ℕ → StateT (Hdf5Class T D) Option (ℤ × Option α) := fun id =>
    match id with
    | none => pure (-1, none)
    | some id => (Hdf5Class.readIn convert id : StateT (Hdf5Class T D) Option _) >>= finish id
  have herase : Erases
      (attributeReadWith alloc convert groupname attrname : HandledM T D (ℤ × Option α))
      ((Hdf5Class.groupOpen alloc groupname : StateT (Hdf5Class T D) Option ℕ) >>= fun _ =>
        (Hdf5Class.openIn alloc groupname attrname : StateT (Hdf5Class T D) Option _) >>=
          read) := by
    refine (erases_groupOpen groupname).bind fun _ => (erases_act _).bind fun opened => ?_
    cases opened with
    | none => exact Erases.pure _
    | some id =>
        refine ((erases_act (Hdf5Class.readIn convert id)).during Handler.null).bind fun value => ?_
        cases value with
        | none => exact Erases.pure _
        | some value => exact (erases_act _).bind fun _ => Erases.pure _
  intro s
  rw [herase s]
  change (Hdf5Class.groupOpen alloc groupname s.state).bind _ =
    (Hdf5Class.groupOpen alloc groupname s.state).bind _
  congr 1
  funext r
  change (Hdf5Class.openIn alloc groupname attrname r.2).bind (fun r => read r.1 r.2) = _
  simp only [Hdf5Class.openIn]
  cases (r.2.groupId groupname).2.h5aopen alloc (r.2.groupId groupname).1 (cString attrname) with
  | mk opened lib =>
      cases opened with
      | none => rfl
      | some id =>
          change (some ((lib.h5aread id).bind convert, _)).bind (fun r => finish id r.1 r.2) = _
          simp only [Option.bind_some]
          cases (lib.h5aread id).bind convert <;> rfl

end Erasing

/-! ### The handler afterwards -/

section Restoring

variable {alloc : Allocator Object}

theorem restores_look {α : Type} (f : Hdf5Class T D → α) : Restores (look f : HandledM T D α) := by
  intro s a s' h
  cases h
  rfl

theorem restores_silently_act {α : Type} (op : Hdf5Class T D → Option (α × Hdf5Class T D)) :
    Restores (silently (act op)) :=
  KeepsSlot.during (keepsSlot_act op) Handler.null

theorem restores_query {α : Type} (op : Hdf5Class T D → α × Hdf5Class T D) : Restores (query op) :=
  restores_silently_act _

theorem restores_openFresh (op : Hdf5Class T D → Option (ℕ × Hdf5Class T D)) :
    Restores (openFresh op) := by
  refine (restores_look _).bind fun file => ?_
  cases file with
  | none => exact restores_silently_act op
  | some file => exact restores_act _

theorem restores_openKept (kept : Hdf5Class T D → Bool)
    (op : Hdf5Class T D → Option (ℕ × Hdf5Class T D)) : Restores (openKept kept op) := by
  refine (restores_look _).bind fun file => ?_
  cases file with
  | none => exact restores_act _
  | some file =>
      refine (restores_look _).bind fun found => ?_
      cases found with
      | true => exact Restores.pure 0
      | false => exact restores_silently_act op

theorem restores_attributeWrite [Zero T] (groupname attrname : String) (value : T) :
    Restores (attributeWrite alloc groupname attrname value : HandledM T D ℕ) := by
  refine (restores_query _).bind fun found => ?_
  cases found with
  | true => exact (restores_openKept _ _).bind fun _ => restores_act _
  | false => exact restores_act _

theorem restores_attributeReadWith {α : Type} (convert : Value T → Option α)
    (groupname attrname : String) :
    Restores (attributeReadWith alloc convert groupname attrname :
      HandledM T D (ℤ × Option α)) := by
  refine (restores_openKept _ _).bind fun _ => (restores_act _).bind fun opened => ?_
  cases opened with
  | none => exact Restores.pure _
  | some id =>
      refine (restores_silently_act _).bind fun value => ?_
      cases value with
      | none => exact Restores.pure _
      | some value => exact (restores_act _).bind fun _ => Restores.pure _

/-- If the group is open, nothing is saved while the handler is silenced. -/
theorem ptableOpen_of_kept {groupname tablename : String} {s s' : Handled T D} {id : ℕ}
    (hkept : s.state.groupIds.contains groupname = true)
    (h : (ptableOpen alloc groupname tablename).run s = some (id, s')) :
    s'.current = s.current := by
  obtain ⟨s₁, hrun, rfl⟩ := during_returns h
  rw [StateT.run_bind] at hrun
  obtain ⟨⟨ret, s₂⟩, hopen, htable⟩ := Option.bind_eq_some_iff.mp hrun
  rw [groupOpen, openKept_run] at hopen
  split at hopen
  · cases hopen
  · obtain rfl : s.save .null = s₂ := by
      change (if s.state.groupIds.contains groupname = true then _ else _) = _ at hopen
      rw [if_pos hkept] at hopen
      exact congrArg Prod.snd (Option.some.inj hopen)
    -- the group was open, so the slot still holds what was saved
    exact keepsSlot_act _ _ _ _ htable

/-- If it is not, the handler that is saved in the end is none. -/
theorem ptableOpen_of_not_kept {groupname tablename : String} {s s' : Handled T D} {id : ℕ}
    (hkept : s.state.groupIds.contains groupname = false)
    (h : (ptableOpen alloc groupname tablename).run s = some (id, s')) :
    s'.current = .null := by
  obtain ⟨s₁, hrun, rfl⟩ := during_returns h
  rw [StateT.run_bind] at hrun
  obtain ⟨⟨ret, s₂⟩, hopen, htable⟩ := Option.bind_eq_some_iff.mp hrun
  rw [groupOpen, openKept_run] at hopen
  split at hopen
  · cases hopen
  · change (if s.state.groupIds.contains groupname = true then _ else _) = _ at hopen
    rw [hkept, if_neg Bool.false_ne_true] at hopen
    -- opening the group has saved the silenced handler over the first one
    exact (keepsSlot_act _ _ _ _ htable).trans (slot_during (keepsSlot_act _) hopen)

end Restoring

end Handled

/-! ### All calls -/

/-- A call of the object, the internal ones included. -/
inductive HandledOp (T D : Type)
  | call (op : Op T)
  | fileExists (filename : String) (permitted : Bool)
  | ptableExists (isTable : D → Bool) (groupname tablename : String)
  | ptableOpen (groupname tablename : String)

/-- The state after a call that returns. -/
def Op.performHandled [Zero T] (alloc : Allocator Object) (op : Op T) (s : Handled T D) :
    Option (Handled T D) :=
  match op with
  | .create filename overwriteExisting permitted =>
      ((Handled.create alloc filename overwriteExisting permitted).run s).map Prod.snd
  | .openFile filename readonly permitted =>
      ((Handled.openFile alloc filename readonly permitted).run s).map Prod.snd
  | .close => (Handled.close.run s).map Prod.snd
  | .groupCreate groupname => ((Handled.groupCreate alloc groupname).run s).map Prod.snd
  | .groupOpen groupname => ((Handled.groupOpen alloc groupname).run s).map Prod.snd
  | .groupExists groupname => ((Handled.groupExists alloc groupname).run s).map Prod.snd
  | .listSubGroups native groupname =>
      ((Handled.listSubGroups alloc native groupname).run s).map Prod.snd
  | .datasetOpen groupname dataname =>
      ((Handled.datasetOpen alloc groupname dataname).run s).map Prod.snd
  | .datasetExists groupname dataname =>
      ((Handled.datasetExists alloc groupname dataname).run s).map Prod.snd
  | .attributeOpen groupname attrname =>
      ((Handled.attributeOpen alloc groupname attrname).run s).map Prod.snd
  | .attributeExists groupname attrname =>
      ((Handled.attributeExists alloc groupname attrname).run s).map Prod.snd
  | .attributeWrite groupname attrname value =>
      ((Handled.attributeWrite alloc groupname attrname value).run s).map Prod.snd
  | .attributeWriteText groupname attrname value =>
      ((Handled.attributeWriteText alloc groupname attrname value).run s).map Prod.snd
  | .attributeRead groupname attrname =>
      ((Handled.attributeReadWith alloc Value.number groupname attrname).run s).map Prod.snd
  | .attributeReadText groupname attrname =>
      ((Handled.attributeReadWith alloc (fun | .num _ => none | .text _ => some ())
        groupname attrname).run s).map Prod.snd

def HandledOp.perform [Zero T] (alloc : Allocator Object) (op : HandledOp T D) (s : Handled T D) :
    Option (Handled T D) :=
  match op with
  | .call op => op.performHandled alloc s
  | .fileExists filename permitted =>
      ((Handled.fileExists alloc filename permitted).run s).map Prod.snd
  | .ptableExists isTable groupname tablename =>
      ((Handled.ptableExists alloc isTable groupname tablename).run s).map Prod.snd
  | .ptableOpen groupname tablename =>
      ((Handled.ptableOpen alloc groupname tablename).run s).map Prod.snd

/-- The call of the class. -/
def HandledOp.plain [Zero T] (alloc : Allocator Object) (op : HandledOp T D) (s : Hdf5Class T D) :
    Option (Hdf5Class T D) :=
  match op with
  | .call op => op.perform alloc s
  | .fileExists filename permitted => some (s.fileExists alloc filename permitted).2
  | .ptableExists isTable groupname tablename =>
      some (s.ptableExists alloc isTable groupname tablename).2
  | .ptableOpen groupname tablename => (s.ptableOpen alloc groupname tablename).map Prod.snd

section All

variable [Zero T] {alloc : Allocator Object} {s s' : Handled T D}

omit [Zero T] in
theorem erases_perform {α : Type} {x : HandledM T D α}
    {y : Hdf5Class T D → Option (α × Hdf5Class T D)} (h : Erases x y) (s : Handled T D) :
    ((x.run s).map Prod.snd).map WithSetting.state = (y s.state).map Prod.snd := by
  have hs := h s
  change _ = y s.state at hs
  rw [← hs, Option.map_map, Option.map_map]
  rfl

theorem performHandled_state (op : Op T) (s : Handled T D) :
    (op.performHandled alloc s).map WithSetting.state = op.perform alloc s.state := by
  cases op with
  | create filename overwriteExisting permitted =>
      refine erases_perform (Handled.erases_openFresh fun s hfile => ?_) s
      obtain ⟨file, hfile⟩ := Option.ne_none_iff_exists'.mp hfile
      simp [Hdf5Class.create, hfile]
  | openFile filename readonly permitted =>
      refine erases_perform (Handled.erases_openFresh fun s hfile => ?_) s
      obtain ⟨file, hfile⟩ := Option.ne_none_iff_exists'.mp hfile
      simp [Hdf5Class.openFile, hfile]
  | close => exact erases_perform (erases_act fun s => some s.close) s
  | groupCreate groupname => exact erases_perform (erases_act _) s
  | groupOpen groupname => exact erases_perform (Handled.erases_groupOpen groupname) s
  | groupExists groupname => exact erases_perform (Handled.erases_query _) s
  | listSubGroups native groupname =>
      exact erases_perform (Handled.erases_listSubGroups native groupname) s
  | datasetOpen groupname dataname =>
      exact erases_perform (Handled.erases_datasetOpen groupname dataname) s
  | datasetExists groupname dataname => exact erases_perform (Handled.erases_query _) s
  | attributeOpen groupname attrname =>
      exact erases_perform (Handled.erases_attributeOpen groupname attrname) s
  | attributeExists groupname attrname => exact erases_perform (Handled.erases_query _) s
  | attributeWrite groupname attrname value =>
      exact erases_perform (Handled.erases_attributeWrite groupname attrname value) s
  | attributeWriteText groupname attrname value => exact erases_perform (erases_act _) s
  | attributeRead groupname attrname =>
      exact erases_perform (Handled.erases_attributeReadWith _ groupname attrname) s
  | attributeReadText groupname attrname =>
      exact erases_perform (Handled.erases_attributeReadWith _ groupname attrname) s

/-- Without the handler, a call is the one of the class. -/
theorem perform_state (op : HandledOp T D) (s : Handled T D) :
    (op.perform alloc s).map WithSetting.state = op.plain alloc s.state := by
  cases op with
  | call op => exact performHandled_state op s
  | fileExists filename permitted => exact erases_perform (Handled.erases_query _) s
  | ptableExists isTable groupname tablename => exact erases_perform (Handled.erases_query _) s
  | ptableOpen groupname tablename =>
      exact erases_perform (Handled.erases_ptableOpen groupname tablename) s

omit [Zero T] in
theorem restores_perform {α : Type} {x : HandledM T D α} (hx : Restores x)
    (h : (x.run s).map Prod.snd = some s') : s'.current = s.current := by
  obtain ⟨⟨a, s₁⟩, hrun, rfl⟩ := Option.map_eq_some_iff.mp h
  exact hx s a s₁ hrun

/-- The calls of the public interface put the handler back. -/
theorem performHandled_current (op : Op T) (h : op.performHandled alloc s = some s') :
    s'.current = s.current := by
  cases op with
  | create => exact restores_perform (Handled.restores_openFresh _) h
  | openFile => exact restores_perform (Handled.restores_openFresh _) h
  | close => exact restores_perform (restores_act fun s => some (Hdf5Class.close s)) h
  | groupCreate => exact restores_perform (restores_act _) h
  | groupOpen => exact restores_perform (Handled.restores_openKept _ _) h
  | groupExists => exact restores_perform (Handled.restores_query _) h
  | listSubGroups =>
      exact restores_perform
        ((Handled.restores_openKept _ _).bind fun _ => restores_act _) h
  | datasetOpen => exact restores_perform (Handled.restores_openKept _ _) h
  | datasetExists => exact restores_perform (Handled.restores_query _) h
  | attributeOpen => exact restores_perform (Handled.restores_openKept _ _) h
  | attributeExists => exact restores_perform (Handled.restores_query _) h
  | attributeWrite => exact restores_perform (Handled.restores_attributeWrite _ _ _) h
  | attributeWriteText => exact restores_perform (restores_act _) h
  | attributeRead => exact restores_perform (Handled.restores_attributeReadWith _ _ _) h
  | attributeReadText => exact restores_perform (Handled.restores_attributeReadWith _ _ _) h

/-- A call that returns has put back the handler it found, if and only if it is not a
`PTableOpen` of a group that was not open, or no handler was installed. -/
theorem handler_put_back_iff {op : HandledOp T D} (h : op.perform alloc s = some s') :
    s'.current = s.current ↔
      ∀ groupname tablename, op = .ptableOpen groupname tablename →
        s.state.groupIds.contains groupname = true ∨ s.current = .null := by
  cases op with
  | call op =>
      exact iff_of_true (performHandled_current op h) fun _ _ hop => by cases hop
  | fileExists =>
      exact iff_of_true (restores_perform (Handled.restores_query _) h) fun _ _ hop => by cases hop
  | ptableExists =>
      exact iff_of_true (restores_perform (Handled.restores_query _) h) fun _ _ hop => by cases hop
  | ptableOpen groupname tablename =>
      obtain ⟨⟨id, s₁⟩, hrun, rfl⟩ := Option.map_eq_some_iff.mp h
      cases hkept : s.state.groupIds.contains groupname with
      | true =>
          refine iff_of_true (Handled.ptableOpen_of_kept hkept hrun) fun _ _ hop => ?_
          cases hop
          exact Or.inl hkept
      | false =>
          rw [Handled.ptableOpen_of_not_kept hkept hrun]
          constructor
          · intro hnull _ _ hop
            exact Or.inr hnull.symm
          · intro hcond
            rcases hcond groupname tablename rfl with hopen | hnull
            · rw [hkept] at hopen
              cases hopen
            · exact hnull.symm

end All

/-- A file with a packet table in a group. -/
def recorded : Library ℤ Unit where
  handles := .empty
  disk filename :=
    if filename = "perf.h5" then
      some
        { groups := [["timings"]]
          groups_nodup := List.nodup_singleton _
          datasets := fun path => if path = ["timings", "PTable"] then some () else none
          attributes := fun _ _ => none }
    else none

/-- A new object while HDF5 prints its errors. -/
def printing : Handled ℤ Unit where
  state := .new recorded
  current := { func := 1, data := 2 }
  slot := .null

/-- In an open group the handler is put back. -/
theorem ptableOpen_puts_back : ∃ s s' : Handled ℤ Unit,
    (do
      let s ← (HandledOp.call (.openFile "perf.h5" false true)).perform (.next Object) printing
      (HandledOp.call (.groupOpen "timings")).perform (.next Object) s) = some s ∧
    (HandledOp.ptableOpen "timings" "PTable").perform (.next Object) s = some s' ∧
    s'.current = s.current := by
  have hrun : (do
      let s ← (HandledOp.call (.openFile "perf.h5" false true)).perform (.next Object) printing
      (HandledOp.call (.groupOpen "timings")).perform (.next Object) s).any
        (fun s : Handled ℤ Unit => s.state.groupIds.contains "timings" &&
          ((HandledOp.ptableOpen "timings" "PTable").perform (.next Object) s).isSome) = true := by
    decide +kernel
  obtain ⟨s, hs, htest⟩ := exists_some_of_any hrun
  rw [Bool.and_eq_true] at htest
  obtain ⟨s', hopen⟩ := Option.isSome_iff_exists.mp htest.2
  refine ⟨s, s', hs, hopen, (handler_put_back_iff hopen).mpr fun groupname tablename hop => ?_⟩
  cases hop
  exact Or.inl htest.1

/-- In a group that is not open it is gone. -/
theorem ptableOpen_loses_handler : ∃ s s' : Handled ℤ Unit,
    (HandledOp.call (.openFile "perf.h5" false true)).perform (.next Object) printing = some s ∧
    (HandledOp.ptableOpen "timings" "PTable").perform (.next Object) s = some s' ∧
    s.current = { func := 1, data := 2 } ∧ s'.current ≠ s.current := by
  have hrun : ((HandledOp.call (.openFile "perf.h5" false true)).perform (.next Object)
      printing).any (fun s => decide (s.current = { func := 1, data := 2 }) &&
        ((HandledOp.ptableOpen "timings" "PTable").perform (.next Object) s).any
          fun s' => decide (s'.current ≠ s.current)) = true := by
    decide +kernel
  obtain ⟨s, hs, htest⟩ := exists_some_of_any hrun
  rw [Bool.and_eq_true, decide_eq_true_iff] at htest
  obtain ⟨s', hopen, hlost⟩ := exists_some_of_any htest.2
  exact ⟨s, s', hs, hopen, htest.1, of_decide_eq_true hlost⟩

end Grvy.Hdf5
