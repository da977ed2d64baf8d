import Grvy.History.Summarize

/-!
What `SummarizeHistTiming` writes for machines whose tables are in the file: one file
for each experiment, with a line for each sample in the order of the table.
-/

namespace Grvy.History

open Std (TreeMap TreeSet)
open Grvy.Lib Grvy.Hdf5

variable {F : Type} {alloc : Allocator Object}

/-! ### What is written to the files -/

section Writing

variable {fs : FileSystem} {outdir machine path : String} {data : List (Sample F)}
  {files files' : Files F}

theorem mem_experiments {name : String} :
    name ∈ experiments data ↔ ∃ sample ∈ data, sample.experiment = name := by
  have hfold (names : TreeSet String) :
      name ∈ data.foldl (fun names sample => names.insert sample.experiment) names ↔
        name ∈ names ∨ ∃ sample ∈ data, sample.experiment = name := by
    induction data generalizing names with
    | nil => simp
    | cons sample data ih =>
        rw [List.foldl_cons, ih, TreeSet.mem_insert, Std.compare_eq_iff_eq]
        simp only [List.mem_cons, exists_eq_or_imp]
        tauto
  rw [experiments, TreeSet.mem_toList, hfold]
  simp

/-- All files are opened, or one of them cannot be. -/
theorem openFiles_eq (names : List String) (files : Files F) :
    openFiles fs outdir machine names files =
      if ∀ name ∈ names, fs.canOpen (outfile outdir machine name) = true then
        some fun path =>
          if path ∈ names.map (outfile outdir machine) then some [] else files path
      else none := by
  induction names generalizing files with
  | nil => simp [openFiles]
  | cons name names ih =>
      rw [openFiles, List.foldlM_cons]
      by_cases hopen : fs.canOpen (outfile outdir machine name) = true
      · simp only [hopen, if_true, Option.bind_eq_bind, Option.bind_some]
        rw [← openFiles, ih]
        simp only [List.forall_mem_cons, hopen, true_and]
        split
        · congr 1
          funext path
          by_cases hpath : path = outfile outdir machine name
          · subst hpath
            simp
          · simp [hpath]
        · rfl
      · simp [hopen]

/-- The lines go to the files of their experiments. -/
theorem foldl_writeRow (lines : List (Row F)) (files : Files F) (path : String) :
    lines.foldl (writeRow outdir machine) files path =
      (files path).map (· ++ lines.filter fun row =>
        outfile outdir machine row.sample.experiment = path) := by
  induction lines generalizing files with
  | nil => simp
  | cons row lines ih =>
      rw [List.foldl_cons, ih, writeRow]
      by_cases hpath : outfile outdir machine row.sample.experiment = path
      · subst hpath
        cases files (outfile outdir machine row.sample.experiment) with
        | none => simp
        | some written => simp
      · rw [Function.update_of_ne (Ne.symm hpath), List.filter_cons_of_neg (by simpa using hpath)]

theorem mem_rows {row : Row F} (hrow : row ∈ rows data) : row.sample ∈ data := by
  obtain ⟨entry, hentry, rfl⟩ := List.mem_map.mp hrow
  exact List.fst_mem_of_mem_zipIdx hentry

@[simp] theorem map_sample_rows (data : List (Sample F)) : (rows data).map Row.sample = data := by
  rw [rows, List.map_map]
  exact List.zipIdx_map_fst 0 data

/-- The samples of some lines are those that the lines are for. -/
theorem map_sample_filter_rows (data : List (Sample F)) (p : Sample F → Bool) :
    ((rows data).filter fun row => p row.sample).map Row.sample = data.filter p := by
  conv_rhs => rw [← map_sample_rows data, List.filter_map]
  rfl

/-- All files of a machine can be opened. -/
def CanWrite (fs : FileSystem) (outdir machine : String) (data : List (Sample F)) : Prop :=
  ∀ sample ∈ data, fs.canOpen (outfile outdir machine sample.experiment) = true

/-- The files when a machine is done. -/
def hostFiles (outdir machine : String) (data : List (Sample F)) (files : Files F) : Files F :=
  fun path =>
    if ∃ sample ∈ data, outfile outdir machine sample.experiment = path then
      some ((rows data).filter fun row => outfile outdir machine row.sample.experiment = path)
    else files path

/-- What one machine is to be written to. -/
def dumpHost (fs : FileSystem) (outdir machine : String) (data : List (Sample F))
    (files : Files F) : Option (Files F) :=
  (openFiles fs outdir machine (experiments data) files).map (dumpRows outdir machine data)

theorem dumpHost_eq_some (hcan : CanWrite fs outdir machine data) (files : Files F) :
    dumpHost fs outdir machine data files = some (hostFiles outdir machine data files) := by
  have hall : ∀ name ∈ experiments data, fs.canOpen (outfile outdir machine name) = true := by
    intro name hname
    obtain ⟨sample, hsample, rfl⟩ := mem_experiments.mp hname
    exact hcan sample hsample
  rw [dumpHost, openFiles_eq, if_pos hall, Option.map_some]
  congr 1
  funext path
  have hmem : path ∈ (experiments data).map (outfile outdir machine) ↔
      ∃ sample ∈ data, outfile outdir machine sample.experiment = path := by
    rw [List.mem_map]
    constructor
    · rintro ⟨name, hname, rfl⟩
      obtain ⟨sample, hsample, rfl⟩ := mem_experiments.mp hname
      exact ⟨sample, hsample, rfl⟩
    · rintro ⟨sample, hsample, rfl⟩
      exact ⟨_, mem_experiments.mpr ⟨sample, hsample, rfl⟩, rfl⟩
  rw [dumpRows, foldl_writeRow, hostFiles]
  by_cases hpath : ∃ sample ∈ data, outfile outdir machine sample.experiment = path
  · rw [if_pos (hmem.mpr hpath), if_pos hpath]
    rfl
  · rw [if_neg (fun h => hpath (hmem.mp h)), if_neg hpath, List.filter_eq_nil_iff.mpr]
    · simp
    · intro row hrow
      simpa using fun heq => hpath ⟨row.sample, mem_rows hrow, heq⟩

theorem canWrite_of_dumpHost (h : dumpHost fs outdir machine data files = some files') :
    CanWrite fs outdir machine data := by
  rw [dumpHost, openFiles_eq] at h
  split at h
  · rename_i hall
    exact fun sample hsample => hall _ (mem_experiments.mpr ⟨sample, hsample, rfl⟩)
  · cases h

end Writing

/-! ### Reading a table -/

section Reading

variable {name : String} {h5 : H5 F} {f : File} {tableId : ℕ}
  {rs : List (Sample F)} {t : Table F}

/-- All cells that are written are read, in their order. -/
theorem Table.Holds.mapM_read (holds : t.Holds rs) :
    (List.range rs.length).mapM (fun i => t.read i) = some rs := by
  -- The induction is on how many cells have been read.
  have hread (n : ℕ) (hn : n ≤ rs.length) :
      (List.range n).mapM (fun i => t.read i) = some (rs.take n) := by
    induction n with
    | zero => simp
    | succ n ih =>
        have hroom : n < t.extent := by
          have := holds.room
          omega
        have hcell : t.read n = some rs[n] := by
          rw [Table.read, if_pos hroom, holds.cells, List.getElem?_eq_getElem]
        rw [List.range_succ, List.mapM_append, ih (by omega), List.mapM_cons, hcell,
          List.take_add_one, List.getElem?_eq_getElem (by omega)]
        rfl
  rw [hread _ le_rfl, List.take_length]

theorem readAllHostData_spec (alloc : Allocator Object) (ready : Ready f h5)
    (hgroup : (h5.contents f).hasGroup (hostPath name) = true)
    (present : Present (hostPath name) rs (h5.contents f))
    (hget : h5.handles.get tableId = some (.dataset f (tablePath (hostPath name)))) :
    ∃ h5', readAllHostData alloc (toplevel ++ name) tableId h5 = some (rs, h5') ∧
      Silent f (h5.contents f) h5 h5' := by
  have hpath := components_hostlevel name
  obtain ⟨h5₁, hread, silent⟩ := ready.attributeReadWith alloc Value.number
    (hpath ▸ hgroup) "num_measurements"
  rw [hpath, cString_numMeasurements, present.count] at hread
  have hrecords : ((rs.length : ℤ) % 2 ^ 64).toNat = rs.length := by
    have := present.bound
    omega
  obtain ⟨t, htable, holds⟩ := present.table
  have hcells (i : ℕ) : h5₁.h5dread tableId (Table.read i) = t.read i :=
    Library.h5dread_dataset (silent.handles.keeps _ _ hget)
      (by rw [silent.contents]; exact htable) _
  refine ⟨h5₁, ?_, silent⟩
  rw [readAllHostData, Hdf5Class.attributeRead, hread]
  simp only [Hdf5Class.readResult, Value.number, Option.bind_some, Option.elim_some,
    Option.bind_eq_bind, hrecords, hcells, holds.mapM_read]

/-- A machine whose table is in the file is read. -/
theorem readHost_spec (alloc : Allocator Object) {loop : Loop F} (ready : Ready f loop.h5)
    (hgroup : (loop.h5.contents f).hasGroup (hostPath name) = true)
    (present : Present (hostPath name) rs (loop.h5.contents f)) :
    ∃ h5', Ready f h5' ∧ h5'.contents f = loop.h5.contents f ∧
      readHost alloc loop name =
        some (rs, { loop with version := some ptableVersion, h5 := h5' }) := by
  have hpath := components_hostlevel name
  let c := loop.h5.contents f
  have hgroup' : c.hasGroup (components (cString (toplevel ++ name))) = true := hpath ▸ hgroup
  have hversion : cString "format_version" = "format_version" := by decide +kernel
  -- The attributes of the machine are read.
  obtain ⟨h5₁, hread₁, silent₁⟩ := ready.attributeReadWith alloc Value.number hgroup'
    "format_version"
  rw [hpath, hversion, present.version] at hread₁
  obtain ⟨r₂, h5₂, hread₂, silent₂⟩ := silent₁.attributeReadText alloc hgroup' "os_sysname"
  obtain ⟨r₃, h5₃, hread₃, silent₃⟩ := silent₂.attributeReadText alloc hgroup' "os_release"
  obtain ⟨r₄, h5₄, hread₄, silent₄⟩ := silent₃.attributeReadText alloc hgroup' "os_version"
  obtain ⟨r₅, h5₅, hread₅, silent₅⟩ := silent₄.attributeReadText alloc hgroup' "cputype"
  -- The table is opened and read.
  obtain ⟨t, htable, -⟩ := present.table
  obtain ⟨tableId, h5₆, hopen, silent₆, hget⟩ := silent₅.ready.ptableOpen alloc
    (by rw [silent₅.contents]; exact hgroup')
    (by rw [datasetPath_hostlevel, silent₅.contents]; exact htable)
  rw [datasetPath_hostlevel] at hget
  rw [silent₅.contents] at silent₆
  obtain ⟨h5₇, hdata, silent₇⟩ := readAllHostData_spec alloc silent₆.ready
    (by rw [silent₆.contents]; exact hgroup) (by rw [silent₆.contents]; exact present) hget
  rw [silent₆.contents] at silent₇
  refine ⟨_, silent₇.ready.h5dclose tableId, silent₇.contents, ?_⟩
  rw [readHost, Hdf5Class.attributeRead, hread₁]
  simp only [Hdf5Class.readResult, Value.number, Option.bind_some, Option.elim_some,
    Option.bind_eq_bind, hread₂, hread₃, hread₄, hread₅, hopen, hdata]
  rfl

/-- With totals and files enabled a machine is written to its files. -/
theorem writeHost_eq (fs : FileSystem) (outdir name : String) (data : List (Sample F))
    (files : Files F) :
    writeHost fs ⟨true, true⟩ outdir name data files = dumpHost fs outdir name data files := by
  rw [writeHost, dumpHost]
  cases openFiles fs outdir name (experiments data) files <;> rfl

/-- It is written, if its files can be opened. -/
theorem summarizeHost_spec (alloc : Allocator Object) (fs : FileSystem) (outdir : String)
    {loop : Loop F} (ready : Ready f loop.h5)
    (hgroup : (loop.h5.contents f).hasGroup (hostPath name) = true)
    (present : Present (hostPath name) rs (loop.h5.contents f)) :
    ∃ h5', Ready f h5' ∧ h5'.contents f = loop.h5.contents f ∧
      summarizeHost alloc fs ⟨true, true⟩ outdir loop name =
        (dumpHost fs outdir name rs loop.files).map fun files =>
          { version := some ptableVersion, h5 := h5', files := files } := by
  obtain ⟨h5', ready', hcontents, hread⟩ := readHost_spec alloc ready hgroup present
  refine ⟨h5', ready', hcontents, ?_⟩
  rw [summarizeHost_eq_readHost, hread, Option.bind_some, writeHost_eq]

/-- Without a table of its own a machine ends the program. -/
theorem summarizeHost_absent (alloc : Allocator Object) (fs : FileSystem) (options : Options)
    (outdir : String) {loop : Loop F} (ready : Ready f loop.h5)
    (hgroup : (loop.h5.contents f).hasGroup (hostPath name) = true)
    (absent : Absent (hostPath name) (loop.h5.contents f)) :
    summarizeHost alloc fs options outdir loop name = none := by
  have hpath := components_hostlevel name
  let c := loop.h5.contents f
  have hgroup' : c.hasGroup (components (cString (toplevel ++ name))) = true := hpath ▸ hgroup
  obtain ⟨h5₁, hread₁, silent₁⟩ := ready.attributeReadWith alloc Value.number hgroup'
    "format_version"
  obtain ⟨r₂, h5₂, hread₂, silent₂⟩ := silent₁.attributeReadText alloc hgroup' "os_sysname"
  obtain ⟨r₃, h5₃, hread₃, silent₃⟩ := silent₂.attributeReadText alloc hgroup' "os_release"
  obtain ⟨r₄, h5₄, hread₄, silent₄⟩ := silent₃.attributeReadText alloc hgroup' "os_version"
  obtain ⟨r₅, h5₅, hread₅, silent₅⟩ := silent₄.attributeReadText alloc hgroup' "cputype"
  have hopen : h5₅.ptableOpen alloc (toplevel ++ name) tablename = none :=
    silent₅.ready.ptableOpen_absent alloc (by rw [silent₅.contents]; exact hgroup')
      (by rw [datasetPath_hostlevel, silent₅.contents]; exact absent.table)
  rw [summarizeHost, Hdf5Class.attributeRead, hread₁]
  simp only [Option.bind_eq_bind, Option.bind_some, hread₂, hread₃, hread₄, hread₅, hopen,
    Option.bind_none, ite_self]

end Reading

/-! ### One machine after the other -/

section Machines

variable {fs : FileSystem} {outdir : String} {samples : String → List (Sample F)}
  {names : List String} {files files' : Files F}

/-- The machines are written to their files. -/
def dumpHosts (fs : FileSystem) (outdir : String) (samples : String → List (Sample F))
    (names : List String) (files : Files F) : Option (Files F) :=
  names.foldlM (fun files name => dumpHost fs outdir name (samples name) files) files

/-- The loop over machines whose tables are in the file writes all of them. -/
theorem summarizeHosts_spec (alloc : Allocator Object) (fs : FileSystem) (outdir : String)
    {f : File} (loop : Loop F) (ready : Ready f loop.h5)
    (hgroups : ∀ name ∈ names, (loop.h5.contents f).hasGroup (hostPath name) = true)
    (present : ∀ name ∈ names, Present (hostPath name) (samples name) (loop.h5.contents f)) :
    (names.foldlM (summarizeHost alloc fs ⟨true, true⟩ outdir) loop).map Loop.files =
      dumpHosts fs outdir samples names loop.files := by
  induction names generalizing loop with
  | nil => rfl
  | cons name names ih =>
      obtain ⟨hgroup, hgroups⟩ := List.forall_mem_cons.mp hgroups
      obtain ⟨hpresent, hpresents⟩ := List.forall_mem_cons.mp present
      obtain ⟨h5, ready', hcontents, hhost⟩ :=
        summarizeHost_spec alloc fs outdir ready hgroup hpresent
      rw [List.foldlM_cons, hhost, dumpHosts, List.foldlM_cons]
      cases dumpHost fs outdir name (samples name) loop.files with
      | none => rfl
      | some files =>
          simp only [Option.map_some, Option.bind_eq_bind, Option.bind_some]
          rw [ih _ ready' (by rw [hcontents]; exact hgroups) (by rw [hcontents]; exact hpresents)]
          rfl

/-- A loop that comes to its end has met machines with tables only. -/
theorem present_of_summarizeHosts (alloc : Allocator Object) {f : File} {loop loop' : Loop F}
    (ready : Ready f loop.h5)
    (hgroups : ∀ name ∈ names, (loop.h5.contents f).hasGroup (hostPath name) = true)
    (kept : ∀ name ∈ names, Kept (hostPath name) (samples name) (loop.h5.contents f))
    (h : names.foldlM (summarizeHost alloc fs ⟨true, true⟩ outdir) loop = some loop') :
    ∀ name ∈ names, Present (hostPath name) (samples name) (loop.h5.contents f) := by
  induction names generalizing loop with
  | nil => simp
  | cons name names ih =>
      obtain ⟨hgroup, hgroups⟩ := List.forall_mem_cons.mp hgroups
      obtain ⟨hkept, hkepts⟩ := List.forall_mem_cons.mp kept
      rw [List.foldlM_cons] at h
      obtain ⟨loop₁, hhost, hrest⟩ := Option.bind_eq_some_iff.mp h
      rcases hkept with ⟨-, absent⟩ | ⟨-, hpresent⟩
      · rw [summarizeHost_absent alloc fs _ outdir ready hgroup absent] at hhost
        cases hhost
      · obtain ⟨h5, ready', hcontents, hspec⟩ :=
          summarizeHost_spec alloc fs outdir ready hgroup hpresent
        rw [hspec] at hhost
        obtain ⟨files, -, rfl⟩ := Option.map_eq_some_iff.mp hhost
        have hothers := ih ready' (by rw [hcontents]; exact hgroups)
          (by rw [hcontents]; exact hkepts) hrest
        rw [hcontents] at hothers
        exact List.forall_mem_cons.mpr ⟨hpresent, hothers⟩

/-- Directories and files that are named without a slash can be told apart. -/
theorem outfile_inj {machine machine' experiment experiment' : String}
    (hmachine : '/' ∉ machine.toList) (hexperiment : '/' ∉ experiment.toList)
    (h : outfile outdir machine experiment = outfile outdir machine' experiment') :
    machine = machine' ∧ experiment = experiment' := by
  have hsplit (machine experiment : String) : (outfile outdir machine experiment).toList =
      (outdir ++ "/").toList ++ (machine.toList ++ '/' :: experiment.toList) := by
    simp [outfile]
  have hlist := congrArg String.toList h
  rw [hsplit, hsplit, List.append_cancel_left_eq] at hlist
  obtain ⟨hfront, -, hback⟩ :=
    (List.append_cons_inj_of_notMem hmachine hexperiment).mp hlist
  exact ⟨String.toList_inj.mp hfront, String.toList_inj.mp hback⟩

/-- Each file has the lines of its machine and experiment, and no other is different. -/
structure Dumped (outdir : String) (samples : String → List (Sample F)) (names : List String)
    (files files' : Files F) : Prop where
  written : ∀ name ∈ names, ∀ sample ∈ samples name,
    files' (outfile outdir name sample.experiment) =
      some ((rows (samples name)).filter fun row => row.sample.experiment = sample.experiment)
  others : ∀ path,
    (∀ name ∈ names, ∀ sample ∈ samples name, path ≠ outfile outdir name sample.experiment) →
      files' path = files path

theorem hostFiles_outfile {name : String} (hname : '/' ∉ name.toList) {data : List (Sample F)}
    {sample : Sample F} (hsample : sample ∈ data) (hexperiment : '/' ∉ sample.experiment.toList)
    (files : Files F) :
    hostFiles outdir name data files (outfile outdir name sample.experiment) =
      some ((rows data).filter fun row => row.sample.experiment = sample.experiment) := by
  rw [hostFiles, if_pos ⟨sample, hsample, rfl⟩]
  congr 1
  refine List.filter_congr fun row _ => decide_eq_decide.mpr ⟨fun heq => ?_, fun heq => ?_⟩
  · exact (outfile_inj hname hexperiment heq.symm).2.symm
  · rw [heq]

theorem dumpHosts_spec (hnodup : names.Nodup) (hslash : ∀ name ∈ names, '/' ∉ name.toList)
    (hexperiment : ∀ name ∈ names, ∀ sample ∈ samples name, '/' ∉ sample.experiment.toList)
    (hcan : ∀ name ∈ names, CanWrite fs outdir name (samples name)) (files : Files F) :
    ∃ files', dumpHosts fs outdir samples names files = some files' ∧
      Dumped outdir samples names files files' := by
  induction names generalizing files with
  | nil => exact ⟨files, rfl, by simp, fun _ _ => rfl⟩
  | cons name names ih =>
      obtain ⟨hnotMem, hnodup⟩ := List.nodup_cons.mp hnodup
      obtain ⟨hname, hslash⟩ := List.forall_mem_cons.mp hslash
      obtain ⟨hplain, hexperiment⟩ := List.forall_mem_cons.mp hexperiment
      obtain ⟨hwrite, hcan⟩ := List.forall_mem_cons.mp hcan
      obtain ⟨files', hrest, dumped⟩ :=
        ih hnodup hslash hexperiment hcan (hostFiles outdir name (samples name) files)
      refine ⟨files', ?_, ?_, fun path hpath => ?_⟩
      · rw [dumpHosts, List.foldlM_cons, dumpHost_eq_some hwrite]
        exact hrest
      · refine List.forall_mem_cons.mpr ⟨fun sample hsample => ?_, dumped.written⟩
        -- The machines that follow have other directories.
        rw [dumped.others, hostFiles_outfile hname hsample (hplain sample hsample)]
        intro other hother sample' _ heq
        exact hnotMem ((outfile_inj hname (hplain sample hsample) heq).1 ▸ hother)
      · obtain ⟨hhere, hthere⟩ := List.forall_mem_cons.mp hpath
        rw [dumped.others path hthere, hostFiles, if_neg]
        rintro ⟨sample, hsample, heq⟩
        exact hhere sample hsample heq.symm

/-- If all machines have been written, all files could be opened. -/
theorem canWrite_of_dumpHosts (h : dumpHosts fs outdir samples names files = some files') :
    ∀ name ∈ names, CanWrite fs outdir name (samples name) := by
  induction names generalizing files with
  | nil => simp
  | cons name names ih =>
      rw [dumpHosts, List.foldlM_cons] at h
      obtain ⟨files₁, hhost, hrest⟩ := Option.bind_eq_some_iff.mp h
      exact List.forall_mem_cons.mpr ⟨canWrite_of_dumpHost hhost, ih hrest⟩

/-- The groups directly below that of the timers are listed. -/
theorem openHistory_spec (alloc : Allocator Object) (native : NativeOrder) {filename : String}
    {lib : Library F} {c : Contents ℤ (Table F)} (hdisk : lib.disk filename = some c)
    (htop : c.hasGroup topPath = true) :
    ∃ h5, Ready { name := filename, readonly := true } h5 ∧
      h5.contents { name := filename, readonly := true } = c ∧
      openHistory alloc native filename lib = some (native.order (c.subgroups topPath), h5) := by
  let f : File := { name := filename, readonly := true }
  let h5₁ : H5 F := { Hdf5Class.new lib with
    toLibrary := (lib.issue alloc (.file f)).2
    fileId := some (alloc.fresh lib.handles) }
  have hopen : (Hdf5Class.new lib : H5 F).openFile alloc filename true true = some (0, h5₁) := by
    simp [Hdf5Class.openFile, Hdf5Class.new, Library.h5fopen, hdisk, h5₁, f]
  have ready₁ : Ready f h5₁ := (idle_new lib).openFile f rfl
  have hcontents₁ : h5₁.contents f = c := by
    change (lib.disk filename).getD .empty = c
    rw [hdisk]
    rfl
  have htop₁ : (h5₁.contents f).hasGroup (components (cString toplevel)) = true := by
    rw [components_toplevel, hcontents₁]
    exact htop
  obtain ⟨h5₂, hgroup, silent₂, -⟩ := ready₁.groupOpen alloc htop₁
  obtain ⟨h5₃, hlist, silent₃⟩ :=
    silent₂.ready.listSubGroups alloc native (by rw [silent₂.contents]; exact htop₁)
  rw [silent₂.contents, components_toplevel, hcontents₁] at hlist
  have silent := silent₂.trans silent₃
  refine ⟨h5₃, silent.ready, by rw [silent.contents, silent₂.contents, hcontents₁], ?_⟩
  simp only [openHistory, hopen, Option.bind_eq_bind, Option.bind_some, hgroup, hlist]

/-- The call goes over them. -/
theorem summarizeHistTiming_eq (alloc : Allocator Object) (fs : FileSystem)
    (native : NativeOrder) (options : Options) {filename : String} (outdir : String)
    (files : Files F) {lib : Library F} {c : Contents ℤ (Table F)}
    (hdisk : lib.disk filename = some c) (htop : c.hasGroup topPath = true) :
    ∃ h5, Ready { name := filename, readonly := true } h5 ∧
      h5.contents { name := filename, readonly := true } = c ∧
      summarizeHistTiming alloc fs native options filename outdir files lib =
        ((native.order (c.subgroups topPath)).foldlM (summarizeHost alloc fs options outdir)
          { version := none, h5 := h5, files := files }).map fun loop =>
            { machines := native.order (c.subgroups topPath), files := loop.files } := by
  obtain ⟨h5, ready, hcontents, hopen⟩ := openHistory_spec alloc native hdisk htop
  refine ⟨h5, ready, hcontents, ?_⟩
  rw [summarizeHistTiming_eq_openHistory, hopen, Option.bind_some]

end Machines

end Grvy.History
