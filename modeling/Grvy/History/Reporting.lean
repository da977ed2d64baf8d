import Grvy.History.SummarizeSpec
import Grvy.Lib.Outcome

/-!
What becomes of the measurements of many calls of `SaveHistTiming` on one file when
`SummarizeHistTiming` reports on it.

A measurement is saved in the group its machine name is the path of, but reported
only from the groups directly below that of the timers.
-/

namespace Grvy.History

open Grvy.Lib Grvy.Hdf5

variable {F : Type} {alloc : Allocator Object}

/-! ### Calls on one file -/

/-- The files that hold databases. -/
abbrev Disk (F : Type) := String → Option (Contents ℤ (Table F))

/-- A call of `SaveHistTiming` by a process with some handles open. -/
structure Save (F : Type) where
  process : HandleTable Object
  hostenv : Hostenv
  measurement : Measurement F

def Save.run (alloc : Allocator Object) (filename : String) (disk : Disk F) (save : Save F) :
    Option (Disk F) :=
  (saveHistTiming alloc save.hostenv save.measurement filename
    { handles := save.process, disk := disk }).map (·.disk)

/-- Successful calls, one after the other. -/
def saveAll (alloc : Allocator Object) (filename : String) (saves : List (Save F))
    (disk : Disk F) : Option (Disk F) :=
  saves.foldlM (Save.run alloc filename) disk

/-- The contents of a file that need not exist. -/
def Disk.contents (disk : Disk F) (filename : String) : Contents ℤ (Table F) :=
  (disk filename).getD .empty

/-! ### The database -/

section Database

variable {c c' : Contents ℤ (Table F)} {ms : List (Measurement F)} {host : Path}

/-- The records saved under a machine, in the order saved. -/
def samplesAt (ms : List (Measurement F)) (host : Path) : List (Sample F) :=
  (ms.filter fun m => hostPath m.machinename = host).map Measurement.header

/-- No call of `SaveHistTiming` has been made on the file. -/
structure Untouched (c : Contents ℤ (Table F)) : Prop where
  groups : ∀ path, c.hasGroup (topPath ++ path) = false
  datasets : ∀ path, c.datasets (topPath ++ path) = none
  attributes : ∀ path name, c.attributes (topPath ++ path) name = none

/-- The file has the records of all calls, each in the group of its machine. There are
no groups but those and the ones on the way to them. -/
structure Database (ms : List (Measurement F)) (c : Contents ℤ (Table F)) : Prop where
  kept : ∀ path, Kept (topPath ++ path) (samplesAt ms (topPath ++ path)) c
  groups : ∀ path, c.hasGroup (topPath ++ path) = true →
    ∃ m ∈ ms, topPath ++ path <+: hostPath m.machinename
  hosts : ∀ m ∈ ms, c.hasGroup topPath = true ∧ c.hasGroup (hostPath m.machinename) = true

theorem Untouched.database (untouched : Untouched c) : Database [] c where
  kept path := by
    refine Or.inl ⟨rfl, ?_, untouched.attributes path⟩
    rw [tablePath, List.append_assoc]
    exact untouched.datasets _
  groups path hgroup := by
    rw [untouched.groups] at hgroup
    cases hgroup
  hosts := by simp

theorem samplesAt_append (ms : List (Measurement F)) (m : Measurement F) (host : Path) :
    samplesAt (ms ++ [m]) host =
      samplesAt ms host ++ if hostPath m.machinename = host then [m.header] else [] := by
  rw [samplesAt, List.filter_append, List.map_append]
  congr 1
  by_cases hhost : hostPath m.machinename = host <;> simp [hhost]

/-- A call that returns adds its record. -/
theorem Database.append (database : Database ms c) {m : Measurement F}
    (saved : Saved (hostPath m.machinename) (samplesAt ms (hostPath m.machinename) ++ [m.header])
      c c') : Database (ms ++ [m]) c' where
  kept path := by
    rw [samplesAt_append]
    by_cases hhost : hostPath m.machinename = topPath ++ path
    · rw [if_pos hhost, ← hhost]
      exact Or.inr ⟨by simp, saved.present⟩
    · rw [if_neg hhost, List.append_nil]
      refine (database.kept path).congr (saved.datasets _ fun heq => ?_)
        (saved.attributes _ (Ne.symm hhost))
      exact hhost (List.append_cancel_right heq).symm
  groups path hgroup := by
    rcases saved.only _ hgroup with hold | hnew
    · obtain ⟨m', hm', hbelow⟩ := database.groups path hold
      exact ⟨m', List.mem_append_left _ hm', hbelow⟩
    · exact ⟨m, by simp, hnew⟩
  hosts m' hm' := by
    rcases List.mem_append.mp hm' with hm' | hm'
    · obtain ⟨htop, hhost⟩ := database.hosts m' hm'
      exact ⟨saved.mono _ htop, saved.mono _ hhost⟩
    · rw [List.mem_singleton.mp hm']
      exact ⟨saved.exists_top, saved.exists_host⟩

/-- So does every successful call. -/
theorem Database.saveAll {filename : String} {saves : List (Save F)} {disk disk' : Disk F}
    (database : Database ms (disk.contents filename))
    (h : saveAll alloc filename saves disk = some disk') :
    Database (ms ++ saves.map Save.measurement) (disk'.contents filename) := by
  induction saves generalizing ms disk with
  | nil =>
      cases h
      rw [List.map_nil, List.append_nil]
      exact database
  | cons save saves ih =>
      rw [History.saveAll, List.foldlM_cons] at h
      obtain ⟨disk₁, hrun, hrest⟩ := Option.bind_eq_some_iff.mp h
      obtain ⟨lib, hsave, rfl⟩ := Option.map_eq_some_iff.mp hrun
      rw [List.map_cons, ← List.singleton_append, ← List.append_assoc]
      refine ih ?_ hrest
      exact database.append (saveHistTiming_spec (database.kept _) hsave)

/-- What is directly below the group of the timers has a name of one component. -/
theorem Database.isName_subgroup (database : Database ms c) {name : String}
    (hname : name ∈ c.subgroups topPath) : IsName name ∧ hostPath name = topPath ++ [name] := by
  have hgroup : c.hasGroup (topPath ++ [name]) = true := by
    simp [Contents.hasGroup, Contents.mem_subgroups.mp hname]
  obtain ⟨m, -, hbelow⟩ := database.groups _ hgroup
  have hmem : name ∈ components (cString m.machinename) :=
    ((List.prefix_append_right_inj topPath).mp hbelow).subset List.mem_cons_self
  have hc := isName_of_mem_components hmem
  exact ⟨hc, by rw [hostPath, hc.cString_eq, hc.components_eq]⟩

/-- The machine of a name of one component is found there. -/
theorem Database.mem_subgroups (database : Database ms c) {m : Measurement F} (hm : m ∈ ms)
    {name : String} (hcomponents : components (cString m.machinename) = [name]) :
    name ∈ c.subgroups topPath ∧ hostPath name = hostPath m.machinename := by
  have hhost : hostPath m.machinename = topPath ++ [name] := by rw [hostPath, hcomponents]
  have hgroup := (database.hosts m hm).2
  rw [hhost, Contents.hasGroup] at hgroup
  have hmem : name ∈ c.subgroups topPath := by
    rw [Contents.mem_subgroups]
    simpa using hgroup
  exact ⟨hmem, by rw [(database.isName_subgroup hmem).2, hhost]⟩

end Database

/-! ### The report -/

section Report

variable {fs : FileSystem} {native : NativeOrder} {filename outdir : String} {files : Files F}
  {lib : Library F} {c : Contents ℤ (Table F)} {ms : List (Measurement F)} {out : Summary F}

/-- All records are shown: their machines are visited, the file of a machine and an
experiment has the records of these in the order saved, and no other file is
different. -/
structure Shows (outdir : String) (ms : List (Measurement F)) (files : Files F)
    (out : Summary F) : Prop where
  visited : ∀ m ∈ ms, ∃ name ∈ out.machines, hostPath name = hostPath m.machinename ∧
    (out.files (outfile outdir name (cString m.experiment))).map (List.map Row.sample) =
      some ((samplesAt ms (hostPath m.machinename)).filter fun sample =>
        sample.experiment = cString m.experiment)
  others : ∀ path, out.files path ≠ files path →
    ∃ m ∈ ms, ∃ name ∈ out.machines, hostPath name = hostPath m.machinename ∧
      path = outfile outdir name (cString m.experiment)

/-- `SummarizeHistTiming` with totals and files enabled. -/
def report (alloc : Allocator Object) (fs : FileSystem) (native : NativeOrder)
    (filename outdir : String) (files : Files F) (lib : Library F) : Option (Summary F) :=
  summarizeHistTiming alloc fs native { dumpFiles := true, outputTotaltimerRaw := true }
    filename outdir files lib

/-- The machines that are visited. -/
def visits (native : NativeOrder) (c : Contents ℤ (Table F)) : List String :=
  native.order (c.subgroups topPath)

theorem mem_visits {name : String} : name ∈ visits native c ↔ name ∈ c.subgroups topPath :=
  (native.order_perm _).mem_iff

/-- The records of a machine that is visited. -/
def hostSamples (ms : List (Measurement F)) (name : String) : List (Sample F) :=
  samplesAt ms (hostPath name)

theorem Database.hasGroup_visits (database : Database ms c) (native : NativeOrder) :
    ∀ name ∈ visits native c, c.hasGroup (hostPath name) = true := by
  intro name hname
  have hmem := mem_visits.mp hname
  rw [(database.isName_subgroup hmem).2]
  simp [Contents.hasGroup, Contents.mem_subgroups.mp hmem]

/-- The report is what the records that are visited are written to. -/
theorem Database.report_eq (database : Database ms c) (hdisk : lib.disk filename = some c)
    (htop : c.hasGroup topPath = true)
    (present : ∀ name ∈ visits native c, Present (hostPath name) (hostSamples ms name) c) :
    report alloc fs native filename outdir files lib =
      (dumpHosts fs outdir (hostSamples ms) (visits native c) files).map fun files =>
        { machines := visits native c, files := files } := by
  obtain ⟨h5, ready, hcontents, heq⟩ :=
    summarizeHistTiming_eq alloc fs native ⟨true, true⟩ outdir files hdisk htop
  have hloop := summarizeHosts_spec alloc fs outdir { version := none, h5 := h5, files := files }
    ready (by rw [hcontents]; exact database.hasGroup_visits native)
    (by rw [hcontents]; exact present)
  rw [report, heq, ← hloop, Option.map_map]
  rfl

/-- A report that returns has found a table for each group it visits. -/
theorem Database.present_of_report (database : Database ms c)
    (hdisk : lib.disk filename = some c) (htop : c.hasGroup topPath = true)
    (h : report alloc fs native filename outdir files lib = some out) :
    ∀ name ∈ visits native c, Present (hostPath name) (hostSamples ms name) c := by
  obtain ⟨h5, ready, hcontents, heq⟩ :=
    summarizeHistTiming_eq alloc fs native ⟨true, true⟩ outdir files hdisk htop
  rw [report, heq] at h
  obtain ⟨loop', hloop, -⟩ := Option.map_eq_some_iff.mp h
  have present := present_of_summarizeHosts alloc ready
    (by rw [hcontents]; exact database.hasGroup_visits native)
    (by rw [hcontents]; exact fun name _ => database.kept _) hloop
  rw [hcontents] at present
  exact present

/-- If every machine is visited, the files show all records. -/
theorem Database.shows (database : Database ms c)
    (hnames : ∀ m ∈ ms, ∃ name, components (cString m.machinename) = [name])
    (hmachines : out.machines = visits native c)
    (dumped : Dumped outdir (hostSamples ms) (visits native c) files out.files) :
    Shows outdir ms files out where
  visited m hm := by
    obtain ⟨name, hname⟩ := hnames m hm
    obtain ⟨hmem, hhost⟩ := database.mem_subgroups hm hname
    have hvisit : name ∈ visits native c := mem_visits.mpr hmem
    have hsample : m.header ∈ hostSamples ms name :=
      List.mem_map.mpr ⟨m, List.mem_filter.mpr ⟨hm, by simp [hhost]⟩, rfl⟩
    refine ⟨name, hmachines ▸ hvisit, hhost, ?_⟩
    have hfile := dumped.written name hvisit _ hsample
    change out.files (outfile outdir name (cString m.experiment)) = _ at hfile
    have hrecords := map_sample_filter_rows (hostSamples ms name) fun sample =>
      sample.experiment = cString m.experiment
    rw [hfile, Option.map_some, ← hhost]
    exact congrArg some hrecords
  others path hpath := by
    by_contra hnone
    refine hpath (dumped.others path fun name hname sample hsample heq => hnone ?_)
    obtain ⟨m, hm, rfl⟩ := List.mem_map.mp hsample
    obtain ⟨hm, hhost⟩ := List.mem_filter.mp hm
    exact ⟨m, hm, name, hmachines ▸ hname, (of_decide_eq_true hhost).symm, heq⟩

end Report

/-! ### Saving and reporting -/

section Reported

variable {fs : FileSystem} {native : NativeOrder} {filename outdir : String} {files : Files F}
  {lib : Library F} {c : Contents ℤ (Table F)} {ms : List (Measurement F)} {out : Summary F}

/-- A report by a process with some handles open shows all records, if there are any. -/
def Reported (alloc : Allocator Object) (fs : FileSystem) (native : NativeOrder)
    (filename outdir : String) (files : Files F) (process : HandleTable Object) (disk : Disk F)
    (ms : List (Measurement F)) : Prop :=
  ms = [] ∨
    ∃ out, report alloc fs native filename outdir files { handles := process, disk := disk } =
      some out ∧ Shows outdir ms files out

/-- The machine name has one component, and the file of its experiment can be opened. -/
def Retrievable (fs : FileSystem) (outdir : String) (m : Measurement F) : Prop :=
  ∃ name, components (cString m.machinename) = [name] ∧
    fs.canOpen (outfile outdir name (cString m.experiment)) = true

theorem mem_hostSamples {name : String} {sample : Sample F} :
    sample ∈ hostSamples ms name ↔
      ∃ m ∈ ms, hostPath m.machinename = hostPath name ∧ m.header = sample := by
  simp [hostSamples, samplesAt, and_assoc]

theorem Database.retrievable_of_shows (database : Database ms c)
    (hdisk : lib.disk filename = some c) (htop : c.hasGroup topPath = true)
    (h : report alloc fs native filename outdir files lib = some out)
    (shows : Shows outdir ms files out) : ∀ m ∈ ms, Retrievable fs outdir m := by
  intro m hm
  rw [database.report_eq hdisk htop (database.present_of_report hdisk htop h)] at h
  obtain ⟨files', hdump, rfl⟩ := Option.map_eq_some_iff.mp h
  obtain ⟨name, hname, hhost, -⟩ := shows.visited m hm
  refine ⟨name, ?_, ?_⟩
  · rw [(database.isName_subgroup (mem_visits.mp hname)).2] at hhost
    exact (List.append_cancel_left hhost).symm
  · exact canWrite_of_dumpHosts hdump name hname m.header
      (mem_hostSamples.mpr ⟨m, hm, hhost.symm, rfl⟩)

/-- A group that is visited is that of a machine, if every machine has a name of one
component. -/
theorem Database.exists_of_visits (database : Database ms c)
    (hretrievable : ∀ m ∈ ms, Retrievable fs outdir m) {name : String}
    (hname : name ∈ visits native c) :
    ∃ m ∈ ms, hostPath m.machinename = hostPath name := by
  have hhost := (database.isName_subgroup (mem_visits.mp hname)).2
  have hgroup := database.hasGroup_visits native name hname
  rw [hhost] at hgroup
  obtain ⟨m, hm, hbelow⟩ := database.groups _ hgroup
  obtain ⟨name', hcomponents, -⟩ := hretrievable m hm
  refine ⟨m, hm, ?_⟩
  rw [hostPath, hcomponents] at hbelow ⊢
  rw [hhost, (hbelow.eq_of_length (by simp))]

theorem Database.canWrite (database : Database ms c)
    (hretrievable : ∀ m ∈ ms, Retrievable fs outdir m) {name : String}
    (hname : name ∈ visits native c) : CanWrite fs outdir name (hostSamples ms name) := by
  intro sample hsample
  obtain ⟨m, hm, hhost, rfl⟩ := mem_hostSamples.mp hsample
  obtain ⟨name', hcomponents, hopen⟩ := hretrievable m hm
  rw [(database.isName_subgroup (mem_visits.mp hname)).2, hostPath, hcomponents] at hhost
  obtain rfl : name' = name := by simpa using hhost
  exact hopen

theorem Database.shows_of_retrievable (database : Database ms c)
    (hdisk : lib.disk filename = some c) (htop : c.hasGroup topPath = true)
    (hslash : ∀ m ∈ ms, '/' ∉ m.experiment.toList)
    (hretrievable : ∀ m ∈ ms, Retrievable fs outdir m) :
    ∃ out, report alloc fs native filename outdir files lib = some out ∧
      Shows outdir ms files out := by
  have present : ∀ name ∈ visits native c,
      Present (hostPath name) (hostSamples ms name) c := by
    intro name hname
    obtain ⟨m, hm, hhost⟩ := database.exists_of_visits hretrievable hname
    rcases database.kept (components (cString name)) with ⟨hnil, -⟩ | ⟨-, present⟩
    · have hsample := mem_hostSamples.mpr ⟨m, hm, hhost, rfl⟩
      rw [hostSamples, hostPath, hnil] at hsample
      cases hsample
    · exact present
  have hnodup : (visits native c).Nodup :=
    (native.order_perm _).nodup_iff.mpr (c.nodup_subgroups topPath)
  have hplain : ∀ name ∈ visits native c, '/' ∉ name.toList := fun name hname =>
    (database.isName_subgroup (mem_visits.mp hname)).1.slash
  have hexperiment : ∀ name ∈ visits native c, ∀ sample ∈ hostSamples ms name,
      '/' ∉ sample.experiment.toList := by
    intro name _ sample hsample hmem
    obtain ⟨m, hm, -, rfl⟩ := mem_hostSamples.mp hsample
    exact hslash m hm (mem_of_mem_cString hmem)
  have hcan : ∀ name ∈ visits native c, CanWrite fs outdir name (hostSamples ms name) :=
    fun name hname => database.canWrite hretrievable hname
  obtain ⟨files', hdump, dumped⟩ := dumpHosts_spec hnodup hplain hexperiment hcan files
  let out : Summary F := { machines := visits native c, files := files' }
  have hreport : report alloc fs native filename outdir files lib = some out := by
    rw [database.report_eq hdisk htop present, hdump]
    rfl
  have hshows : Shows outdir ms files out := by
    refine database.shows (fun m hm => ?_) rfl dumped
    obtain ⟨name, hname, -⟩ := hretrievable m hm
    exact ⟨name, hname⟩
  exact ⟨out, hreport, hshows⟩

/-- A disk has a file with a group in it. -/
theorem Disk.eq_some_of_hasGroup {disk : Disk F}
    (htop : (disk.contents filename).hasGroup topPath = true) :
    disk filename = some (disk.contents filename) := by
  rw [Disk.contents] at htop ⊢
  cases hdisk : disk filename with
  | none =>
      rw [hdisk] at htop
      cases htop
  | some c => rfl

/-- All records of successful calls are reported if and only if each of their machine
names has one component and the files can be opened. -/
theorem reported_iff (alloc : Allocator Object) (fs : FileSystem) (native : NativeOrder)
    (filename outdir : String) (files : Files F) (process : HandleTable Object)
    {saves : List (Save F)} {disk disk' : Disk F}
    (untouched : Untouched (disk.contents filename))
    (hslash : ∀ save ∈ saves, '/' ∉ save.measurement.experiment.toList)
    (hsaved : saveAll alloc filename saves disk = some disk') :
    Reported alloc fs native filename outdir files process disk'
        (saves.map Save.measurement) ↔
      ∀ save ∈ saves, Retrievable fs outdir save.measurement := by
  have database := untouched.database.saveAll hsaved
  rw [List.nil_append] at database
  have hall (p : Measurement F → Prop) :
      (∀ m ∈ saves.map Save.measurement, p m) ↔ ∀ save ∈ saves, p save.measurement :=
    List.forall_mem_map
  rw [← hall]
  cases hms : saves.map Save.measurement with
  | nil => exact iff_of_true (Or.inl rfl) (by simp)
  | cons m ms =>
      rw [hms] at database
      have htop := (database.hosts m List.mem_cons_self).1
      have hdisk := Disk.eq_some_of_hasGroup htop
      constructor
      · rintro (hnil | ⟨out, hreport, shows⟩)
        · cases hnil
        · exact database.retrievable_of_shows hdisk htop hreport shows
      · intro hretrievable
        exact Or.inr (database.shows_of_retrievable hdisk htop
          (hms ▸ (hall fun m => '/' ∉ m.experiment.toList).mpr hslash) hretrievable)

end Reported

/-! ### Runs on a new file -/

/-- What is behind the last slash. -/
def lastName (path : String) : String :=
  String.ofList (path.toList.reverse.takeWhile (· ≠ '/')).reverse

theorem lastName_append (path : String) {name : String} (hname : '/' ∉ name.toList) :
    lastName (path ++ "/" ++ name) = name := by
  have hall : ∀ x ∈ name.toList.reverse, decide (x ≠ '/') = true := fun x hx =>
    decide_eq_true fun heq => hname (heq ▸ List.mem_reverse.mp hx)
  rw [lastName]
  simp only [String.toList_append, List.reverse_append]
  rw [List.takeWhile_append_of_pos hall]
  simp

/-- A file system in which everything but directories can be opened. -/
def writableFiles : FileSystem where
  canOpen path := lastName path ∉ ["", ".", ".."]
  directory path name hname := by
    have hslash : '/' ∉ name.toList := by
      rcases hname with rfl | rfl | rfl <;> decide
    rw [lastName_append path hslash]
    rcases hname with rfl | rfl | rfl <;> rfl

/-- A file that does not exist is untouched. -/
theorem untouched_of_none {disk : Disk F} {filename : String} (hdisk : disk filename = none) :
    Untouched (disk.contents filename) := by
  rw [Disk.contents, hdisk]
  exact ⟨fun path => by simp [Contents.hasGroup, Contents.empty, topPath], fun _ => rfl,
    fun _ _ => rfl⟩

/-- A measurement with the defaults of `gadd`, saved by a process of its own. -/
def gaddSave (machinename experiment : String) (timing : ℕ) : Save ℕ where
  process := .empty
  hostenv := { osSysname := "Linux", osRelease := "5.4", osVersion := "1", cputype := "x86_64" }
  measurement :=
    { machinename := machinename
      experiment := experiment
      comment := ""
      timing := timing
      numProcs := 1
      jobId := -1
      codeRevision := "unknown"
      flops := 0
      timestamp := ""
      runtimeEnv := []
      subtimers := [] }

/-- Two names of one machine. -/
theorem reported_of_one_machine :
    ∃ disk', saveAll (.next Object) "perf.h5"
        [gaddSave "hal" "ring" 3, gaddSave "hal/" "ring" 4] (fun _ => none) = some disk' ∧
      Reported (.next Object) writableFiles ⟨id, fun _ => .refl _⟩ "perf.h5" "./gdata"
        (fun _ => none) .empty disk'
        ([gaddSave "hal" "ring" 3, gaddSave "hal/" "ring" 4].map Save.measurement) := by
  have hrun : (saveAll (.next Object) "perf.h5"
      [gaddSave "hal" "ring" 3, gaddSave "hal/" "ring" 4] fun _ => none).any
        (fun _ => true) = true := by
    decide +kernel
  obtain ⟨disk', hsaved, -⟩ := exists_some_of_any hrun
  have untouched : Untouched (Disk.contents (fun _ => none : Disk ℕ) "perf.h5") :=
    untouched_of_none rfl
  refine ⟨disk', hsaved, (reported_iff _ _ _ _ _ _ _ untouched ?_ hsaved).mpr ?_⟩
  · decide +kernel
  · intro save hsave
    refine ⟨"hal", ?_⟩
    revert save
    decide +kernel

/-- Without `-m` nothing is reported. -/
theorem not_reported_of_default :
    ∃ disk', saveAll (.next Object) "perf.h5" [gaddSave (gaddMachine none) "ring" 3]
        (fun _ => none) = some disk' ∧
      ¬Reported (.next Object) writableFiles ⟨id, fun _ => .refl _⟩ "perf.h5" "./gdata"
        (fun _ => none) .empty disk'
        ([gaddSave (gaddMachine none) "ring" 3].map Save.measurement) := by
  have hrun : (saveAll (.next Object) "perf.h5" [gaddSave (gaddMachine none) "ring" 3]
      fun _ => none).any (fun disk => (report (.next Object) writableFiles ⟨id, fun _ => .refl _⟩
        "perf.h5" "./gdata" (fun _ => none) { handles := .empty, disk := disk }).any
          fun out => out.machines = []) = true := by
    decide +kernel
  obtain ⟨disk', hsaved, htest⟩ := exists_some_of_any hrun
  obtain ⟨out, hreport, hmachines⟩ := exists_some_of_any htest
  refine ⟨disk', hsaved, ?_⟩
  rintro (hnil | ⟨out', hreport', shows⟩)
  · cases hnil
  · rw [hreport] at hreport'
    cases hreport'
    obtain ⟨name, hname, -⟩ := shows.visited _ List.mem_cons_self
    rw [of_decide_eq_true hmachines] at hname
    cases hname

end Grvy.History
