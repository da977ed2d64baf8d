import Grvy.History.Save

/-!
What a successful call of `SaveHistTiming` leaves in the file: the table of its
machine holds one more sample, the attributes of the machine count it, and nothing
else is different.
-/

namespace Grvy.History

open Std (TreeMap)
open Grvy.Lib Grvy.Hdf5

variable {F : Type} {alloc : Allocator Object}

/-! ### Paths -/

def topPath : Path := ["GRVY", "Performance_timings"]

/-- Where the group of a machine is. -/
def hostPath (machinename : String) : Path := topPath ++ components (cString machinename)

def tablePath (host : Path) : Path := host ++ [tablename]

@[simp] theorem components_toplevel : components (cString toplevel) = topPath := by decide +kernel

@[simp] theorem components_hostlevel (machinename : String) :
    components (cString (toplevel ++ machinename)) = hostPath machinename := by
  have hnull : Char.ofNat 0 ∉ toplevel.toList := by decide +kernel
  have hbase : components "GRVY/Performance_timings" = topPath := by decide +kernel
  have hslash : toplevel = "GRVY/Performance_timings" ++ "/" := by decide +kernel
  rw [cString_append hnull, hslash, components_append, hbase]
  rfl

@[simp] theorem datasetPath_hostlevel (machinename : String) :
    datasetPath (toplevel ++ machinename) tablename = tablePath (hostPath machinename) := by
  have hname : cString tablename = tablename := by decide +kernel
  have hslash : tablename.toList.head? ≠ some '/' := by decide +kernel
  have hcomponents : components tablename = [tablename] := by decide +kernel
  rw [datasetPath, components_hostlevel, hname, resolve, if_neg hslash, hcomponents]
  rfl

/-! ### Tables -/

namespace Table

variable {t : Table F} {rs : List (Sample F)}

/-- The cells of a table up to some point are written, and there is room for another. -/
structure Holds (rs : List (Sample F)) (t : Table F) : Prop where
  cells : ∀ i, t.cells i = rs[i]?
  room : rs.length < t.extent
  chunks : perfHistChunksize ∣ t.extent

theorem holds_new : (new : Table F).Holds [] where
  cells _ := rfl
  room := Nat.zero_lt_succ 99
  chunks := Nat.dvd_refl _

/-- A sample is written behind the others. -/
theorem Holds.write (holds : t.Holds rs) (sample : Sample F) :
    ∃ t', t.write rs.length sample = some t' ∧ t'.extent = t.extent ∧
      ∀ i, t'.cells i = (rs ++ [sample])[i]? := by
  have hroom := holds.room
  refine ⟨_, if_pos ⟨by omega, by omega⟩, rfl, fun i => ?_⟩
  change Function.update t.cells (rs.length : ℤ).toNat (some sample) i = _
  rw [Int.toNat_natCast]
  by_cases hi : i = rs.length
  · simp [hi]
  · rw [Function.update_of_ne hi, holds.cells]
    by_cases hlt : i < rs.length
    · rw [List.getElem?_append_left hlt]
    · rw [List.getElem?_eq_none (by omega), List.getElem?_eq_none (by simp; omega)]

/-- Between chunks there is room left. -/
theorem Holds.of_write (holds : t.Holds rs) {sample : Sample F} {t' : Table F}
    (hextent : t'.extent = t.extent) (hcells : ∀ i, t'.cells i = (rs ++ [sample])[i]?)
    (hcount : ((rs.length : ℤ) + 1) % perfHistChunksize ≠ 0) : t'.Holds (rs ++ [sample]) where
  cells := hcells
  room := by
    obtain ⟨k, hk⟩ := holds.chunks
    have hroom := holds.room
    rw [perfHistChunksize] at hk hcount
    rw [List.length_append, List.length_singleton, hextent]
    omega
  chunks := hextent ▸ holds.chunks

/-- At the end of a chunk another is added. -/
theorem Holds.of_extend {sample : Sample F} {t' : Table F}
    (hcells : ∀ i, t'.cells i = (rs ++ [sample])[i]?)
    (hcount : ((rs.length : ℤ) + 1) % perfHistChunksize = 0) :
    ∃ t'', t'.setExtent (rs.length + 1 + perfHistChunksize) = some t'' ∧
      t''.Holds (rs ++ [sample]) := by
  rw [perfHistChunksize] at hcount
  have hdims : ((rs.length : ℤ) + 1 + perfHistChunksize).toNat = rs.length + 1 + 100 := by
    rw [perfHistChunksize]
    omega
  refine ⟨_, if_pos (by rw [perfHistChunksize]; omega), fun i => ?_, ?_, ?_⟩
  · rw [hdims]
    change (if i < rs.length + 1 + 100 then t'.cells i else none) = _
    split
    · exact hcells i
    · exact (List.getElem?_eq_none (by simp; omega)).symm
  · rw [hdims, List.length_append, List.length_singleton]
    change rs.length + 1 < rs.length + 1 + 100
    omega
  · rw [hdims, perfHistChunksize]
    change 100 ∣ rs.length + 1 + 100
    omega

end Table

/-! ### Appending to a table that is open -/

theorem of_int {x y : ℤ} (h : int x = some y) : y = x ∧ x < 2 ^ 31 := by
  rw [int] at h
  split at h
  · rename_i hbounds
    exact ⟨(Option.some.inj h).symm, hbounds.2⟩
  · cases h

section Append

variable {h5 h5' : H5 F} {f : File} {path : Path} {machinename : String} {tableId : ℕ}
  {rs : List (Sample F)} {t t' : Table F} {sample : Sample F}

/-- The sample is written behind the others. -/
theorem appendHistData_spec (ready : Ready f h5) (hwrite : f.readonly = false)
    (hget : h5.handles.get tableId = some (.dataset f path))
    (hdata : (h5.contents f).datasets path = some t) (holds : t.Holds rs)
    (h : appendHistData tableId rs.length sample h5 = some h5') :
    ∃ t', t'.extent = t.extent ∧ (∀ i, t'.cells i = (rs ++ [sample])[i]?) ∧
      Silent f ((h5.contents f).setDataset path t') h5 h5' := by
  obtain ⟨t', hwritten, hextent, hcells⟩ := holds.write sample
  rw [appendHistData, Library.h5dwrite_dataset hget hwrite hdata, hwritten] at h
  cases h
  refine ⟨t', hextent, hcells, ?_⟩
  have silent := ready.library (h5.setContents f ((h5.contents f).setDataset path t')) (.refl _)
    fun path hgroup => by
      rw [Library.contents_setContents]
      exact hgroup
  rw [Library.contents_setContents] at silent
  exact silent

/-- Afterwards there is room for another. -/
theorem extendTable_spec (hwrite : f.readonly = false)
    (hget : h5.handles.get tableId = some (.dataset f path))
    (hdata : (h5.contents f).datasets path = some t') (holds : t.Holds rs)
    (hextent : t'.extent = t.extent) (hcells : ∀ i, t'.cells i = (rs ++ [sample])[i]?)
    (h : extendTable tableId (rs.length + 1) h5 = some h5') :
    ∃ t'', t''.Holds (rs ++ [sample]) ∧
      h5'.contents f = (h5.contents f).setDataset path t'' := by
  rw [extendTable] at h
  split at h
  · rename_i hchunk
    obtain ⟨dims, hdims, rfl⟩ := Option.map_eq_some_iff.mp h
    obtain ⟨rfl, -⟩ := of_int hdims
    obtain ⟨t'', hextend, holds'⟩ := Table.Holds.of_extend hcells hchunk
    refine ⟨t'', holds', ?_⟩
    rw [Library.h5dwrite_dataset hget hwrite hdata, hextend]
    exact Library.contents_setContents _
  · rename_i hchunk
    cases h
    refine ⟨t', holds.of_write hextent hcells hchunk, ?_⟩
    rw [Contents.setDataset_self hdata]

@[simp] theorem cString_numMeasurements : cString "num_measurements" = "num_measurements" := by
  decide +kernel

/-- The table that is open holds one sample more, and the sample is counted. -/
theorem appendAndCount_spec (ready : Ready f h5)
    (hg : h5.groupIds.contains (toplevel ++ machinename) = true) (hwrite : f.readonly = false)
    (hnew : h5.attributeIds.contains "num_measurements" = false)
    (hget : h5.handles.get tableId = some (.dataset f path))
    (hdata : (h5.contents f).datasets path = some t) (holds : t.Holds rs)
    (hcount : (h5.contents f).attributes (hostPath machinename) "num_measurements" =
      some (.num rs.length))
    (h : appendAndCount alloc (toplevel ++ machinename) tableId sample h5 = some h5') :
    (rs.length : ℤ) + 1 < 2 ^ 31 ∧ ∃ t', t'.Holds (rs ++ [sample]) ∧ h5'.contents f =
      ((h5.contents f).setDataset path t').setAttribute (hostPath machinename) "num_measurements"
        (.num ((rs.length : ℤ) + 1)) := by
  have hpath := components_hostlevel machinename
  have hname := cString_numMeasurements
  obtain ⟨h5₁, hread, silent⟩ := ready.attributeReadWith alloc Value.number (ready.exist _ hg)
    "num_measurements"
  rw [hpath, hname, hcount] at hread
  rw [appendAndCount, Hdf5Class.attributeRead, hread] at h
  simp only [Hdf5Class.readResult, Value.number, Option.bind_some, Option.elim_some,
    Option.bind_eq_bind] at h
  obtain ⟨h5₂, happend, h⟩ := Option.bind_eq_some_iff.mp h
  obtain ⟨count, hint, h⟩ := Option.bind_eq_some_iff.mp h
  obtain ⟨⟨ret, h5₃⟩, hupdate, hextend⟩ := Option.bind_eq_some_iff.mp h
  obtain ⟨rfl, hbound⟩ := of_int hint
  -- The sample is written.
  obtain ⟨t₂, hextent, hcells, silent₂⟩ := appendHistData_spec silent.ready hwrite
    (silent.handles.keeps _ _ hget) (by rw [silent.contents, hdata]) holds happend
  rw [silent.contents] at silent₂
  -- The counter is written to the attribute that was there.
  have hold : (h5₂.contents f).attributes (components (cString (toplevel ++ machinename)))
      (cString "num_measurements") = some (.num rs.length) := by
    rw [silent₂.contents, hpath, hname]
    exact hcount
  have silent₁₂ := silent.trans silent₂
  obtain ⟨h5₃', hupdate', after⟩ := silent₂.ready.attributeWrite_updates alloc
    (silent₁₂.groups _ hg) hwrite (silent₁₂.attributeIds ▸ hnew) hold (rs.length + 1)
  rw [hupdate'] at hupdate
  cases hupdate
  rw [hpath, hname, silent₂.contents] at after
  -- The table is extended.
  have hget₃ : h5₃.handles.get tableId = some (.dataset f path) :=
    after.handles.keeps _ _ (silent₁₂.handles.keeps _ _ hget)
  have hdata₃ : (h5₃.contents f).datasets path = some t₂ := by
    rw [after.contents]
    exact Function.update_self _ _ _
  obtain ⟨t₃, holds₃, hcontents⟩ :=
    extendTable_spec hwrite hget₃ hdata₃ holds hextent hcells hextend
  refine ⟨hbound, t₃, holds₃, ?_⟩
  rw [hcontents, after.contents]
  change ((((h5.contents f).setDataset path t₂).setDataset path t₃).setAttribute _ _ _) = _
  simp

/-- Without a table the assertion fails. -/
theorem appendAndCount_zero (alloc : Allocator Object) (hostlevel : String) (sample : Sample F)
    (h5 : H5 F) : appendAndCount alloc hostlevel 0 sample h5 = none := by
  have hnone (n : ℤ) (h5 : H5 F) : appendHistData 0 n sample h5 = none := by
    rw [appendHistData, Library.h5dwrite_closed (HandleTable.get_zero _)]
    rfl
  rw [appendAndCount]
  cases h5.attributeRead alloc hostlevel "num_measurements" with
  | none => rfl
  | some result =>
      obtain ⟨⟨r, count⟩, h5₁⟩ := result
      cases count with
      | none => rfl
      | some n => simp [hnone]

end Append

/-! ### What is kept of a machine -/

section Kept

variable {c c' c'' : Contents ℤ (Table F)} {host : Path} {rs : List (Sample F)}

/-- The table of a machine holds its samples, and they are counted by an `int`. -/
structure Present (host : Path) (rs : List (Sample F)) (c : Contents ℤ (Table F)) : Prop where
  bound : (rs.length : ℤ) < 2 ^ 31
  table : ∃ t, c.datasets (tablePath host) = some t ∧ t.Holds rs
  count : c.attributes host "num_measurements" = some (.num rs.length)
  version : c.attributes host "format_version" = some (.num ptableVersion)

/-- There is no table of a machine, and no attributes. -/
structure Absent (host : Path) (c : Contents ℤ (Table F)) : Prop where
  table : c.datasets (tablePath host) = none
  attributes : ∀ name, c.attributes host name = none

/-- The file has the samples of a machine, or has not heard of it. -/
def Kept (host : Path) (rs : List (Sample F)) (c : Contents ℤ (Table F)) : Prop :=
  rs = [] ∧ Absent host c ∨ rs ≠ [] ∧ Present host rs c

theorem Kept.congr (kept : Kept host rs c)
    (hdatasets : c'.datasets (tablePath host) = c.datasets (tablePath host))
    (hattributes : c'.attributes host = c.attributes host) : Kept host rs c' := by
  rcases kept with ⟨hnil, absent⟩ | ⟨hne, present⟩
  · exact Or.inl ⟨hnil, hdatasets ▸ absent.table, hattributes ▸ absent.attributes⟩
  · exact Or.inr ⟨hne, present.bound, hdatasets ▸ present.table, hattributes ▸ present.count,
      hattributes ▸ present.version⟩

/-- A sample has been written and counted. -/
theorem Present.append (present : Present host rs c) {sample : Sample F} {t : Table F}
    (holds : t.Holds (rs ++ [sample])) (hbound : (rs.length : ℤ) + 1 < 2 ^ 31) :
    Present host (rs ++ [sample]) ((c.setDataset (tablePath host) t).setAttribute host
      "num_measurements" (.num ((rs.length : ℤ) + 1))) where
  bound := by
    rw [List.length_append]
    exact hbound
  table := ⟨t, Function.update_self _ _ _, holds⟩
  count := by
    rw [Contents.attributes_setAttribute, if_pos ⟨rfl, rfl⟩, List.length_append]
    rfl
  version := by
    rw [Contents.attributes_setAttribute, if_neg fun heq => absurd heq.2 (by decide)]
    exact present.version

/-- Nothing is different but the table and the attributes of a machine. -/
structure OnlyAt (host : Path) (c c' : Contents ℤ (Table F)) : Prop where
  groups : c'.groups = c.groups
  datasets : ∀ path, path ≠ tablePath host → c'.datasets path = c.datasets path
  attributes : ∀ path, path ≠ host → c'.attributes path = c.attributes path

theorem OnlyAt.refl (host : Path) (c : Contents ℤ (Table F)) : OnlyAt host c c :=
  ⟨rfl, fun _ _ => rfl, fun _ _ => rfl⟩

theorem OnlyAt.trans (h : OnlyAt host c c') (h' : OnlyAt host c' c'') : OnlyAt host c c'' where
  groups := h'.groups.trans h.groups
  datasets path hne := (h'.datasets path hne).trans (h.datasets path hne)
  attributes path hne := (h'.attributes path hne).trans (h.attributes path hne)

theorem OnlyAt.hasGroup (h : OnlyAt host c c') (path : Path) :
    c'.hasGroup path = c.hasGroup path := by
  rw [Contents.hasGroup, h.groups]
  rfl

theorem onlyAt_setDataset (host : Path) (t : Table F) (c : Contents ℤ (Table F)) :
    OnlyAt host c (c.setDataset (tablePath host) t) :=
  ⟨rfl, fun _ hne => Function.update_of_ne hne _ _, fun _ _ => rfl⟩

theorem onlyAt_setAttribute (host : Path) (name : String) (value : Value ℤ)
    (c : Contents ℤ (Table F)) : OnlyAt host c (c.setAttribute host name value) :=
  ⟨rfl, fun _ _ => rfl, fun _ hne => Function.update_of_ne hne _ _⟩

/-- The file after the attributes of a table have been created. -/
def withAttributes (hostenv : Hostenv) (host : Path) (c : Contents ℤ (Table F)) :
    Contents ℤ (Table F) :=
  (((((c.setAttribute host "format_version" (.num ptableVersion)).setAttribute host
    "os_sysname" (.text (cString hostenv.osSysname))).setAttribute host
    "os_release" (.text (cString hostenv.osRelease))).setAttribute host
    "os_version" (.text (cString hostenv.osVersion))).setAttribute host
    "cputype" (.text (cString hostenv.cputype))).setAttribute host "num_measurements" (.num 0)

theorem onlyAt_withAttributes (hostenv : Hostenv) (host : Path) (c : Contents ℤ (Table F)) :
    OnlyAt host c (withAttributes hostenv host c) :=
  ((((((OnlyAt.refl host c).trans (onlyAt_setAttribute host _ _ _)).trans
    (onlyAt_setAttribute host _ _ _)).trans (onlyAt_setAttribute host _ _ _)).trans
    (onlyAt_setAttribute host _ _ _)).trans (onlyAt_setAttribute host _ _ _)).trans
    (onlyAt_setAttribute host _ _ _)

/-- A table that has just been created is empty. -/
theorem present_withAttributes (hostenv : Hostenv) (host : Path) (c : Contents ℤ (Table F)) :
    Present host [] (withAttributes hostenv host (c.setDataset (tablePath host) .new)) where
  bound := by simp
  table := ⟨.new, Function.update_self _ _ _, Table.holds_new⟩
  count := by
    rw [withAttributes, Contents.attributes_setAttribute, if_pos ⟨rfl, rfl⟩]
    rfl
  version := by
    simp [withAttributes, Contents.attributes_setAttribute]

end Kept

/-! ### The steps of a call -/

section Steps

variable {h5 h5' : H5 F} {f : File} {c : Contents ℤ (Table F)} {groupname machinename : String}
  {hostenv : Hostenv} {ret tableId : ℕ} {rs : List (Sample F)}

/-- A group exists, and those on the way to it may be new. -/
structure Grown (path : Path) (c c' : Contents ℤ (Table F)) : Prop where
  exists_path : c'.hasGroup path = true
  mono : ∀ p, c.hasGroup p = true → c'.hasGroup p = true
  only : ∀ p, c'.hasGroup p = true → c.hasGroup p = true ∨ p <+: path
  datasets : c'.datasets = c.datasets
  attributes : c'.attributes = c.attributes

theorem groupOpenOrCreate_spec (ready : Ready f h5)
    (h : groupOpenOrCreate alloc groupname h5 = some (ret, h5')) :
    ∃ c, Silent f c h5 h5' ∧ Grown (components (cString groupname)) (h5.contents f) c ∧
      h5'.groupIds.contains groupname = true := by
  obtain ⟨h5₁, hexists, silent⟩ := ready.groupExists alloc groupname
  rw [groupOpenOrCreate, hexists] at h
  cases hgroup : (h5.contents f).hasGroup (components (cString groupname)) with
  | true =>
      rw [hgroup] at h
      obtain ⟨h5₂, hopen, silent₂, hg⟩ :=
        silent.ready.groupOpen alloc (by rw [silent.contents, hgroup])
      simp only at h
      rw [hopen] at h
      cases h
      rw [silent.contents] at silent₂
      exact ⟨_, silent.trans silent₂, ⟨hgroup, fun _ hp => hp, fun _ hp => Or.inl hp, rfl, rfl⟩,
        hg⟩
  | false =>
      rw [hgroup] at h
      obtain ⟨silent₂, hg⟩ :=
        silent.ready.groupCreate (by rw [silent.contents, hgroup]) h
      rw [silent.contents] at silent₂
      refine ⟨_, silent.trans silent₂, ⟨?_, fun p hp => ?_, fun p hp => ?_, rfl, rfl⟩, hg⟩
      · exact (Contents.hasGroup_addGroup _ _ _).mpr (Or.inr (List.prefix_refl _))
      · exact (Contents.hasGroup_addGroup _ _ _).mpr (Or.inl hp)
      · exact (Contents.hasGroup_addGroup _ _ _).mp hp

/-- The attributes of a table are created one after the other. -/
theorem saveAttributes_spec (alloc : Allocator Object) (ready : Ready f h5)
    (hg : h5.groupIds.contains (toplevel ++ machinename) = true) (hwrite : f.readonly = false)
    (hnone : ∀ name, (h5.contents f).attributes (hostPath machinename) name = none)
    (hostenv : Hostenv) :
    ∃ h5', saveAttributes alloc hostenv (toplevel ++ machinename) h5 = some (0, h5') ∧
      Silent f (withAttributes hostenv (hostPath machinename) (h5.contents f)) h5 h5' := by
  have hpath := components_hostlevel machinename
  let host := hostPath machinename
  have habsent : ∀ name, (h5.contents f).attributes host name = none := hnone
  -- An attribute that does not exist yet is created.
  have hnum {h5₁ : H5 F} {c : Contents ℤ (Table F)} (silent : Silent f c h5 h5₁) (name : String)
      (hname : cString name = name) (hnew : c.attributes host name = none) (value : ℤ) :
      ∃ h5₂, h5₁.attributeWrite alloc (toplevel ++ machinename) name value = some (0, h5₂) ∧
        Silent f (c.setAttribute host name (.num value)) h5 h5₂ := by
    obtain ⟨h5₂, hcreate, silent₂⟩ := silent.ready.attributeWrite_creates alloc
      (silent.groups _ hg) hwrite (by rw [silent.contents, hpath, hname]; exact hnew) value
    rw [silent.contents, hpath, hname] at silent₂
    exact ⟨h5₂, hcreate, silent.trans silent₂⟩
  have htext {h5₁ : H5 F} {c : Contents ℤ (Table F)} (silent : Silent f c h5 h5₁) (name : String)
      (hname : cString name = name) (hnew : c.attributes host name = none) (value : String) :
      ∃ h5₂, h5₁.attributeWriteText alloc (toplevel ++ machinename) name value = some (0, h5₂) ∧
        Silent f (c.setAttribute host name (.text (cString value))) h5 h5₂ := by
    obtain ⟨h5₂, hcreate, silent₂⟩ := silent.ready.attributeWriteText alloc
      (silent.groups _ hg) hwrite (by rw [silent.contents, hpath, hname]; exact hnew) value
    rw [silent.contents, hpath, hname] at silent₂
    exact ⟨h5₂, hcreate, silent.trans silent₂⟩
  obtain ⟨h5₁, hversion, silent₁⟩ := hnum ready.silent_refl "format_version" (by decide +kernel)
    (habsent _) ptableVersion
  obtain ⟨h5₂, hsysname, silent₂⟩ := htext silent₁ "os_sysname" (by decide +kernel)
    (by simp [Contents.attributes_setAttribute, habsent]) hostenv.osSysname
  obtain ⟨h5₃, hrelease, silent₃⟩ := htext silent₂ "os_release" (by decide +kernel)
    (by simp [Contents.attributes_setAttribute, habsent]) hostenv.osRelease
  obtain ⟨h5₄, hosversion, silent₄⟩ := htext silent₃ "os_version" (by decide +kernel)
    (by simp [Contents.attributes_setAttribute, habsent]) hostenv.osVersion
  obtain ⟨h5₅, hcputype, silent₅⟩ := htext silent₄ "cputype" (by decide +kernel)
    (by simp [Contents.attributes_setAttribute, habsent]) hostenv.cputype
  obtain ⟨h5₆, hcount, silent₆⟩ := hnum silent₅ "num_measurements" (by decide +kernel)
    (by simp [Contents.attributes_setAttribute, habsent]) 0
  refine ⟨h5₆, ?_, silent₆⟩
  simp only [saveAttributes, hversion, hsysname, hrelease, hosversion, hcputype, hcount,
    Option.bind_eq_bind, Option.bind_some]

/-- The table of a machine is open, or could not be created. -/
theorem tableOpenOrCreate_spec (ready : Ready f h5)
    (hg : h5.groupIds.contains (toplevel ++ machinename) = true) (hwrite : f.readonly = false)
    (hdatasets : h5.datasetIds.contains tablename = false)
    (kept : Kept (hostPath machinename) rs (h5.contents f))
    (h : tableOpenOrCreate alloc hostenv (toplevel ++ machinename) h5 = some (tableId, h5')) :
    ∃ c, After f c h5 h5' ∧ h5'.attributeIds = h5.attributeIds ∧
      OnlyAt (hostPath machinename) (h5.contents f) c ∧
      (tableId = 0 ∨
        h5'.handles.get tableId = some (.dataset f (tablePath (hostPath machinename))) ∧
          Present (hostPath machinename) rs c) := by
  have hpath := datasetPath_hostlevel machinename
  obtain ⟨h5₁, hexists, silent⟩ := ready.datasetExists alloc hg tablename
  rw [hpath] at hexists
  rcases kept with ⟨rfl, absent⟩ | ⟨hne, present⟩
  · rw [absent.table] at hexists
    rw [tableOpenOrCreate, hexists] at h
    obtain ⟨id, hid⟩ := exists_of_contains (silent.groups _ hg)
    simp only [Option.isSome_none, Hdf5Class.groupId_of_cached hid] at h
    rcases silent.ready.h5dcreate alloc hid tablename .new with
      hfail | ⟨id', lib, hcreate, silent₂, hget⟩
    · -- The attributes are created without a table.
      obtain ⟨h5₂, hattributes, silent₂⟩ := saveAttributes_spec alloc silent.ready
        (silent.groups _ hg) hwrite (by rw [silent.contents]; exact absent.attributes) hostenv
      simp only [hfail, hattributes, Option.bind_eq_bind, Option.bind_some, Option.getD_none,
        Option.some.injEq, Prod.mk.injEq] at h
      obtain ⟨rfl, rfl⟩ := h
      rw [silent.contents] at silent₂
      exact ⟨_, (silent.trans silent₂).toAfter, (silent.trans silent₂).attributeIds,
        onlyAt_withAttributes _ _ _, Or.inl rfl⟩
    · have hresolve : resolve (components (cString (toplevel ++ machinename))) tablename =
          tablePath (hostPath machinename) := hpath
      rw [hresolve, silent.contents] at silent₂
      rw [hresolve] at hget
      have silent₂' := silent.trans silent₂
      obtain ⟨h5₂, hattributes, silent₃⟩ := saveAttributes_spec alloc silent₂.ready
        (silent₂'.groups _ hg) hwrite (by rw [silent₂.contents]; exact absent.attributes) hostenv
      simp only [hcreate, hattributes, Option.bind_eq_bind, Option.bind_some, Option.getD_some,
        Option.some.injEq, Prod.mk.injEq] at h
      obtain ⟨rfl, rfl⟩ := h
      rw [silent₂.contents] at silent₃
      have silent₃' := silent₂'.trans silent₃
      exact ⟨_, silent₃'.toAfter, silent₃'.attributeIds,
        (onlyAt_setDataset _ _ _).trans (onlyAt_withAttributes _ _ _),
        Or.inr ⟨silent₃.handles.keeps _ _ hget, present_withAttributes _ _ _⟩⟩
  · obtain ⟨t, htable, holds⟩ := present.table
    rw [htable] at hexists
    rw [tableOpenOrCreate, hexists] at h
    obtain ⟨id, h5₂, hopen, after, hattributes, hid, hget⟩ := silent.ready.datasetOpen alloc
      (silent.groups _ hg) (silent.datasetIds ▸ hdatasets)
      (by rw [hpath, silent.contents]; exact htable)
    simp only [Option.isSome_some, hopen, Option.bind_eq_bind, Option.bind_some, hid,
      Option.getD_some, Option.some.injEq, Prod.mk.injEq] at h
    obtain ⟨rfl, rfl⟩ := h
    rw [silent.contents] at after
    rw [hpath] at hget
    exact ⟨_, silent.toAfter.trans after, hattributes.trans silent.attributeIds, .refl _ _,
      Or.inr ⟨hget, present⟩⟩

/-- A file that exists is opened, another is created empty. -/
theorem openOrCreate_spec {filename : String} {lib : Library F}
    (h : openOrCreate alloc filename (.new lib) = some (ret, h5)) :
    Ready { name := filename, readonly := false } h5 ∧
      h5.contents { name := filename, readonly := false } =
        lib.contents { name := filename, readonly := false } ∧
      h5.datasetIds = ∅ ∧ h5.attributeIds = ∅ := by
  rw [openOrCreate, Hdf5Class.fileExists, Library.h5fopen, Bool.true_and] at h
  cases hfile : lib.disk filename with
  | none =>
      have hdisk : (Hdf5Class.new lib : H5 F).disk filename = none := hfile
      rw [hdisk] at h
      obtain ⟨-, rfl⟩ := Hdf5Class.create_returns h
      refine ⟨(idle_new lib).openFile _ rfl, ?_, rfl, rfl⟩
      change (lib.setContents _ .empty).contents _ = _
      rw [Library.contents_setContents, Library.contents, hfile]
      rfl
  | some c =>
      have hdisk : (Hdf5Class.new lib : H5 F).disk filename = some c := hfile
      rw [hdisk] at h
      obtain ⟨-, rfl⟩ := Hdf5Class.openFile_returns h
      exact ⟨(idle_new _).openFile _ rfl, rfl, rfl, rfl⟩

/-- What a call leaves: the machine has one more sample, and only its group, and those
on the way to it, may be new. -/
structure Saved (host : Path) (samples : List (Sample F)) (c c' : Contents ℤ (Table F)) :
    Prop where
  present : Present host samples c'
  exists_top : c'.hasGroup topPath = true
  exists_host : c'.hasGroup host = true
  mono : ∀ p, c.hasGroup p = true → c'.hasGroup p = true
  only : ∀ p, c'.hasGroup p = true → c.hasGroup p = true ∨ p <+: host
  datasets : ∀ p, p ≠ tablePath host → c'.datasets p = c.datasets p
  attributes : ∀ p, p ≠ host → c'.attributes p = c.attributes p

/-- The groups have been opened or created first, then the table is written. -/
theorem Saved.of_grown {host : Path} {samples : List (Sample F)}
    {c c₁ c₂ c' : Contents ℤ (Table F)} (top : Grown topPath c c₁)
    (below : Grown (topPath ++ host) c₁ c₂) (only : OnlyAt (topPath ++ host) c₂ c')
    (present : Present (topPath ++ host) samples c') : Saved (topPath ++ host) samples c c' where
  present := present
  exists_top := by
    rw [only.hasGroup]
    exact below.mono _ top.exists_path
  exists_host := by
    rw [only.hasGroup]
    exact below.exists_path
  mono p hp := by
    rw [only.hasGroup]
    exact below.mono _ (top.mono _ hp)
  only p hp := by
    rw [only.hasGroup] at hp
    rcases below.only p hp with hp | hp
    · exact (top.only p hp).imp_right fun htop => htop.trans (List.prefix_append _ _)
    · exact Or.inr hp
  datasets p hne := by rw [only.datasets p hne, below.datasets, top.datasets]
  attributes p hne := by rw [only.attributes p hne, below.attributes, top.attributes]

/-- Where a call stands when its table has been opened, or could not be created. -/
structure Opened (f : File) (machinename : String) (rs : List (Sample F))
    (c : Contents ℤ (Table F)) (tableId : ℕ) (h5 : H5 F) : Prop where
  ready : Ready f h5
  group : h5.groupIds.contains (toplevel ++ machinename) = true
  fresh : h5.attributeIds.contains "num_measurements" = false
  grown : ∃ c₁ c₂, Grown topPath c c₁ ∧ Grown (hostPath machinename) c₁ c₂ ∧
    OnlyAt (hostPath machinename) c₂ (h5.contents f)
  table : tableId = 0 ∨
    h5.handles.get tableId = some (.dataset f (tablePath (hostPath machinename))) ∧
      Present (hostPath machinename) rs (h5.contents f)

/-- The file, the groups and the table are opened or created. -/
theorem opened_of_steps {filename : String} {lib : Library F} {r₁ r₂ r₃ : ℕ}
    {h5₁ h5₂ h5₃ h5₄ : H5 F}
    (kept : Kept (hostPath machinename) rs
      (lib.contents { name := filename, readonly := false }))
    (hopen : openOrCreate alloc filename (.new lib) = some (r₁, h5₁))
    (htop : groupOpenOrCreate alloc toplevel h5₁ = some (r₂, h5₂))
    (hhost : groupOpenOrCreate alloc (toplevel ++ machinename) h5₂ = some (r₃, h5₃))
    (htable : tableOpenOrCreate alloc hostenv (toplevel ++ machinename) h5₃ =
      some (tableId, h5₄)) :
    Opened { name := filename, readonly := false } machinename rs
      (lib.contents { name := filename, readonly := false }) tableId h5₄ := by
  let host := hostPath machinename
  let f : File := { name := filename, readonly := false }
  -- The file and the groups are open.
  obtain ⟨ready₁, hcontents₁, hdatasets, hattributes⟩ := openOrCreate_spec hopen
  obtain ⟨c₂, silent₂, grown₂, -⟩ := groupOpenOrCreate_spec ready₁ htop
  obtain ⟨c₃, silent₃, grown₃, hg⟩ := groupOpenOrCreate_spec silent₂.ready hhost
  have silent := silent₂.trans silent₃
  rw [components_toplevel, hcontents₁] at grown₂
  rw [components_hostlevel, silent₂.contents] at grown₃
  have kept₃ : Kept host rs (h5₃.contents f) := by
    rw [silent.contents]
    exact kept.congr (by rw [grown₃.datasets, grown₂.datasets])
      (by rw [grown₃.attributes, grown₂.attributes])
  -- The table is open.
  obtain ⟨c₄, after₄, hids, only₄, htable⟩ := tableOpenOrCreate_spec silent.ready hg rfl
    (by rw [silent.datasetIds, hdatasets]; exact TreeMap.contains_emptyc) kept₃ htable
  rw [silent.contents] at only₄
  rw [← after₄.contents] at only₄ htable
  refine ⟨after₄.ready, after₄.groups _ hg, ?_, ⟨c₂, c₃, grown₂, grown₃, only₄⟩, htable⟩
  rw [hids, silent.attributeIds, hattributes]
  exact TreeMap.contains_emptyc

theorem saveHistTiming_spec {m : Measurement F} {filename : String} {lib lib' : Library F}
    (kept : Kept (hostPath m.machinename) rs
      (lib.contents { name := filename, readonly := false }))
    (h : saveHistTiming alloc hostenv m filename lib = some lib') :
    Saved (hostPath m.machinename) (rs ++ [m.header])
      (lib.contents { name := filename, readonly := false })
      (lib'.contents { name := filename, readonly := false }) := by
  let host := hostPath m.machinename
  let f : File := { name := filename, readonly := false }
  obtain ⟨⟨r₁, h5₁⟩, hopen, h⟩ := Option.bind_eq_some_iff.mp h
  obtain ⟨⟨r₂, h5₂⟩, htop, h⟩ := Option.bind_eq_some_iff.mp h
  obtain ⟨⟨r₃, h5₃⟩, hhost, h⟩ := Option.bind_eq_some_iff.mp h
  obtain ⟨⟨tableId, h5₄⟩, htable, h⟩ := Option.bind_eq_some_iff.mp h
  obtain ⟨h5₅, happend, h⟩ := Option.bind_eq_some_iff.mp h
  cases h
  obtain ⟨ready, hg, hnew, ⟨c₂, c₃, grown₂, grown₃, only₄⟩, rfl | ⟨hget, present₄⟩⟩ :=
    opened_of_steps kept hopen htop hhost htable
  · simp only [appendAndCount_zero] at happend
    cases happend
  -- The sample is appended.
  obtain ⟨t, hdata, holds⟩ := present₄.table
  obtain ⟨hbound, t', holds', hcontents₅⟩ := appendAndCount_spec ready hg rfl hnew hget hdata holds
    present₄.count happend
  have hlast : ({ h5₅ with toLibrary := h5₅.h5dclose tableId } : H5 F).close.2.contents f =
      ((h5₄.contents f).setDataset (tablePath host) t').setAttribute host "num_measurements"
        (.num ((rs.length : ℤ) + 1)) := by
    rw [contents_close]
    exact hcontents₅
  have only := only₄.trans ((onlyAt_setDataset host t' (h5₄.contents f)).trans
    (onlyAt_setAttribute host "num_measurements" (.num ((rs.length : ℤ) + 1)) _))
  rw [← hlast] at only
  refine .of_grown grown₂ grown₃ only ?_
  rw [hlast]
  exact present₄.append holds' hbound

end Steps

end Grvy.History
