import Grvy.Apps.GaddLines
import Grvy.Apps.GdumpLines
import Grvy.History.Reporting

/-!
The programs `gadd` and `gdump`, from their command lines to the file they work on.

What command lines of `gadd` have saved is shown by a command line of `gdump`, if each of them
names a machine by one component and the files of the summary can be opened.
-/

namespace Grvy.Apps

open Grvy.Lib Grvy.Hdf5 Grvy.History
open GetPot (isMinus)

variable {D : Type}

/-! ### The programs -/

/-- What a process of `gadd` has around it. -/
structure Around where
  handles : HandleTable Object
  hostenv : Hostenv
  timestamp : String
  environ : List String

/-- What is saved in the mode of an external timing. -/
def measurement (around : Around) (switches : Switches) (options : Options D) (timing : D)
    (name : CText) : Measurement D where
  machinename := String.ofList options.machine
  experiment := String.ofList name
  comment := String.ofList options.comment
  timing := timing
  numProcs := options.numprocs.toInt
  jobId := options.jobId.toInt
  codeRevision := String.ofList options.revision
  flops := options.flops
  timestamp := around.timestamp
  runtimeEnv := if switches.options.outputPrintenv then around.environ else []
  subtimers := []

variable (alloc : Allocator Object) (d : GetPot.Doubles)

/-- `main` of `gadd`, where `lexicalCast` has no value for what is not a number. There is no
result if the program is aborted, and the disk is as before if it exits without saving. -/
def gadd (numbers : Numbers D) (lexicalCast : CText → Option D) (fuel : ℕ) (around : Around)
    (name : CText) (args : List CText) (disk : Disk D) : Option (Disk D) := do
  let cl ← GetPot.construct d fuel name args
  let (outcome, _) ← requestGadd numbers (.ofObject cl)
  match outcome with
  | .save switches options timing name inputFile => do
      let timing ← lexicalCast timing
      Save.run alloc (String.ofList inputFile) disk
        { process := around.handles
          hostenv := around.hostenv
          measurement := measurement around switches options timing name }
  | _ => some disk

/-- `main` of `gdump`: what it summarizes. -/
def gdump (fs : FileSystem) (native : NativeOrder) (fuel : ℕ) (handles : HandleTable Object)
    (name : CText) (args : List CText) (files : Files D) (disk : Disk D) :
    Option (Summary D) := do
  let cl ← GetPot.construct d fuel name args
  let (outcome, _) ← requestGdump (.ofObject cl)
  match outcome with
  | .summarize switches inputFile _ outputDir =>
      summarizeHistTiming alloc fs native switches.options.toOptions (String.ofList inputFile)
        (String.ofList outputDir) files { handles := handles, disk := disk }
  | _ => none

/-! ### Calls of `gadd` -/

/-- A call of `gadd` with a command line. -/
structure GaddCall where
  around : Around
  name : CText
  line : CommandLine

/-- The call of `SaveHistTiming` that a command line asks for, if its time is a number. -/
def GaddCall.save (numbers : Numbers D) (lexicalCast : CText → Option D) (call : GaddCall) :
    Option (Save D) :=
  (lexicalCast call.line.time).map fun timing =>
    { process := call.around.handles
      hostenv := call.around.hostenv
      measurement := measurement call.around call.line.switches (call.line.options numbers)
        timing call.line.name }

/-- Calls of `gadd` one after the other. -/
def gaddAll (numbers : Numbers D) (lexicalCast : CText → Option D) (fuel : ℕ)
    (calls : List GaddCall) (disk : Disk D) : Option (Disk D) :=
  calls.foldlM (fun disk call =>
    gadd alloc d numbers lexicalCast fuel call.around call.name call.line.args disk) disk

/-- A call that saves into the file. -/
structure GaddCall.Into (numbers : Numbers D) (file : CText) (call : GaddCall) : Prop where
  name : isMinus call.name = false
  accepted : call.line.Accepted numbers
  file : call.line.file = file

section Calls

variable {alloc d} {numbers : Numbers D} {lexicalCast : CText → Option D} {file : CText}

theorem eventually_gadd {call : GaddCall} (h : call.Into numbers file) (disk : Disk D) :
    ∀ᶠ n in Filter.atTop,
      gadd alloc d numbers lexicalCast n call.around call.name call.line.args disk =
        (call.save numbers lexicalCast).bind (Save.run alloc (String.ofList file) disk) := by
  obtain ⟨o, hsettles, hrun⟩ := requestGadd_args d h.name h.accepted
  obtain ⟨⟨outcome, cl⟩, hrequest, rfl⟩ := Option.map_eq_some_iff.mp hrun
  filter_upwards [hsettles] with n hn
  rw [gadd, hn, ← h.file]
  simp only [Option.bind_eq_bind, Option.bind_some, hrequest, GaddCall.save, Option.bind_map]
  rfl

/-- The calls save what their command lines ask for, if none of them is aborted. -/
theorem eventually_gaddAll {calls : List GaddCall} (h : ∀ call ∈ calls, call.Into numbers file)
    (disk : Disk D) :
    ∀ᶠ n in Filter.atTop, gaddAll alloc d numbers lexicalCast n calls disk =
      (calls.mapM (GaddCall.save numbers lexicalCast)).bind fun saves =>
        saveAll alloc (String.ofList file) saves disk := by
  induction calls generalizing disk with
  | nil => exact Filter.Eventually.of_forall fun _ => rfl
  | cons call calls ih =>
      have hcall : ∀ᶠ n in Filter.atTop,
          gadd alloc d numbers lexicalCast n call.around call.name call.line.args disk =
            (call.save numbers lexicalCast).bind (Save.run alloc (String.ofList file) disk) :=
        eventually_gadd (h call List.mem_cons_self) disk
      have hcons : ∀ save saves, saveAll alloc (String.ofList file) (save :: saves) disk =
          (Save.run alloc (String.ofList file) disk save).bind
            (saveAll alloc (String.ofList file) saves) := fun _ _ => List.foldlM_cons
      simp only [gaddAll, List.foldlM_cons, List.mapM_cons, Option.bind_eq_bind,
        Option.pure_def, Option.bind_assoc, Option.bind_some, hcons]
      cases hsave : call.save numbers lexicalCast with
      | none =>
          filter_upwards [hcall] with n hn
          rw [hn, hsave]
          rfl
      | some save =>
          rw [hsave, Option.bind_some] at hcall
          rw [Option.bind_some]
          cases hrun : Save.run alloc (String.ofList file) disk save with
          | none =>
              filter_upwards [hcall] with n hn
              rw [hn, hrun]
              simp
          | some disk₁ =>
              have hrest := ih (fun call hmem => h call (List.mem_cons_of_mem _ hmem)) disk₁
              filter_upwards [hcall, hrest] with n hn hn'
              rw [hn, hrun, Option.bind_some, ← gaddAll, hn']
              rfl

theorem mem_saves {calls : List GaddCall} {saves : List (Save D)}
    (h : calls.mapM (GaddCall.save numbers lexicalCast) = some saves) {save : Save D} :
    save ∈ saves ↔ ∃ call ∈ calls, call.save numbers lexicalCast = some save := by
  rw [← List.mem_map, GetPot.mapM_eq_some_iff.mp h,
    List.mem_map_of_injective (Option.some_injective _)]

/-- Every call asks for something to be saved. -/
theorem exists_save {calls : List GaddCall} {saves : List (Save D)}
    (h : calls.mapM (GaddCall.save numbers lexicalCast) = some saves) {call : GaddCall}
    (hcall : call ∈ calls) : ∃ save ∈ saves, call.save numbers lexicalCast = some save := by
  have hmem := List.mem_map_of_mem (f := GaddCall.save numbers lexicalCast) hcall
  rw [GetPot.mapM_eq_some_iff.mp h] at hmem
  obtain ⟨save, hsave, heq⟩ := List.mem_map.mp hmem
  exact ⟨save, hsave, heq.symm⟩

end Calls

/-! ### A call of `gdump` -/

/-- The directory that a line asks for. -/
def lineOutputDir (items : List GdumpItem) : CText :=
  (items.filterMap (GdumpItem.valueFor .outputDir)).headD "./gdata".toList

/-- The machine of a line has a name of one component, and the file for its measurement can be
opened. -/
def CommandLine.Shown (fs : FileSystem) (outputDir : CText) (line : CommandLine) : Prop :=
  ∃ machine, components (cString (String.ofList ((line.valueOf .machine).getD []))) = [machine] ∧
    fs.canOpen (outfile (String.ofList outputDir) machine (cString (String.ofList line.name))) =
      true

section Shown

variable {alloc d} {numbers : Numbers D} {lexicalCast : CText → Option D} {fs : FileSystem}
  {native : NativeOrder} {items : List GdumpItem} {file name : CText} {calls : List GaddCall}
  {disk disk' : Disk D}

theorem eventually_gdump (hname : isMinus name = false) (h : IsGdumpLine items file)
    (htwice : spelledTwice items = []) (handles : HandleTable Object) (files : Files D)
    (disk : Disk D) :
    ∀ᶠ n in Filter.atTop, gdump alloc d fs native n handles name (lineArgs items) files disk =
      summarizeHistTiming alloc fs native (lineSwitches items).options.toOptions
        (String.ofList file) (String.ofList (lineOutputDir items)) files
        { handles := handles, disk := disk } := by
  obtain ⟨o, hsettles, hrun⟩ := requestGdump_lineArgs d hname h
  rw [if_pos htwice] at hrun
  obtain ⟨⟨outcome, cl⟩, hrequest, rfl⟩ := Option.map_eq_some_iff.mp hrun
  filter_upwards [hsettles] with n hn
  rw [gdump, hn]
  simp only [Option.bind_eq_bind, Option.bind_some, hrequest]
  rfl

theorem retrievable_iff {call : GaddCall} {save : Save D}
    (h : call.save numbers lexicalCast = some save) (outputDir : CText) :
    Retrievable fs (String.ofList outputDir) save.measurement ↔ call.line.Shown fs outputDir := by
  obtain ⟨timing, -, rfl⟩ := Option.map_eq_some_iff.mp h
  exact Iff.rfl

/-- **From `gadd` to `gdump`.** Of all that calls of `gadd` have saved in a file, a call of
`gdump` that writes files shows everything if and only if each machine is given by a name of
one component and each file can be opened. -/
theorem gdump_shows_iff (hcalls : ∀ call ∈ calls, call.Into numbers file) (hne : calls ≠ [])
    (hexperiment : ∀ call ∈ calls, '/' ∉ call.line.name)
    (huntouched : Untouched (disk.contents (String.ofList file)))
    (hsaved : Settles (fun n => gaddAll alloc d numbers lexicalCast n calls disk) disk')
    (hname : isMinus name = false) (hline : IsGdumpLine items file)
    (htwice : spelledTwice items = []) (hfiles : hasSwitch items .summarizeOnly = false)
    (handles : HandleTable Object) (files : Files D) :
    ∃ saves, calls.mapM (GaddCall.save numbers lexicalCast) = some saves ∧
      ((∃ out, Settles (fun n =>
            gdump alloc d fs native n handles name (lineArgs items) files disk') out ∧
          Shows (String.ofList (lineOutputDir items)) (saves.map Save.measurement) files out) ↔
        ∀ call ∈ calls, call.line.Shown fs (lineOutputDir items)) := by
  rw [settles_iff_of_eventually (eventually_gaddAll hcalls disk)] at hsaved
  obtain ⟨saves, hsaves, hsaved⟩ := Option.bind_eq_some_iff.mp hsaved
  refine ⟨saves, hsaves, ?_⟩
  have database := huntouched.database.saveAll hsaved
  rw [List.nil_append] at database
  obtain ⟨call, hcall⟩ := List.exists_mem_of_ne_nil calls hne
  obtain ⟨save, hsave, -⟩ := exists_save hsaves hcall
  have htop := (database.hosts _ (List.mem_map_of_mem hsave)).1
  have hdisk := Disk.eq_some_of_hasGroup htop
  have hreport : ∀ out, Settles (fun n =>
        gdump alloc d fs native n handles name (lineArgs items) files disk') out ↔
      report alloc fs native (String.ofList file) (String.ofList (lineOutputDir items)) files
        { handles := handles, disk := disk' } = some out := by
    intro out
    rw [settles_iff_of_eventually (eventually_gdump hname hline htwice handles files disk'),
      lineSwitches, hfiles]
    rfl
  simp only [hreport]
  constructor
  · rintro ⟨out, hout, hshows⟩ call hcall
    obtain ⟨save, hsave, heq⟩ := exists_save hsaves hcall
    have hall := database.retrievable_of_shows hdisk htop hout hshows
    exact (retrievable_iff heq _).mp (hall _ (List.mem_map_of_mem hsave))
  · intro hshown
    refine database.shows_of_retrievable hdisk htop ?_ ?_
    · intro m hm
      obtain ⟨save, hsave, rfl⟩ := List.mem_map.mp hm
      obtain ⟨call, hcall, heq⟩ := (mem_saves hsaves).mp hsave
      obtain ⟨timing, -, rfl⟩ := Option.map_eq_some_iff.mp heq
      simpa [measurement] using hexperiment call hcall
    · intro m hm
      obtain ⟨save, hsave, rfl⟩ := List.mem_map.mp hm
      obtain ⟨call, hcall, heq⟩ := (mem_saves hsaves).mp hsave
      exact (retrievable_iff heq _).mpr (hshown call hcall)

end Shown

/-! ### Two measurements on one machine -/

/-- The same measurement is made twice, each time by a process of its own. -/
def twice : List GaddCall :=
  List.replicate 2
    { around :=
        { handles := .empty
          hostenv :=
            { osSysname := "Linux", osRelease := "5.4", osVersion := "1", cputype := "x86_64" }
          timestamp := ""
          environ := [] }
      name := "gadd".toList
      line := onHal }

theorem into_twice : ∀ call ∈ twice, call.Into wholeNumbers "perf.h5".toList := by
  intro call hcall
  rw [List.eq_of_mem_replicate hcall]
  exact ⟨by decide, accepted_onHal, rfl⟩

/-- `lexical_cast` of a number without a fraction. -/
def wholeCast (text : CText) : Option Int32 := (GetPot.scanWhole text).map Int32.ofInt

/-- `gdump -c perf.h5` shows both. -/
theorem shown_twice :
    ∃ disk' out, ∃ saves : List (Save Int32),
      Settles (fun n => gaddAll (.next Object) GetPot.wholeDoubles wholeNumbers wholeCast n twice
        fun _ => none) disk' ∧
      Settles (fun n => gdump (.next Object) GetPot.wholeDoubles writableFiles
        ⟨id, fun _ => .refl _⟩ n .empty "gdump".toList
        (lineArgs [.switch .withComment false, .file "perf.h5".toList]) (fun _ => none) disk')
        out ∧
      Shows "./gdata" (saves.map Save.measurement) (fun _ => none) out ∧ saves.length = 2 := by
  have hrun : ((twice.mapM (GaddCall.save wholeNumbers wholeCast)).bind fun saves =>
      saveAll (.next Object) "perf.h5" saves fun _ => none).any (fun _ => true) = true := by
    decide +kernel
  obtain ⟨disk', hdisk', -⟩ := exists_some_of_any hrun
  have hsaved : Settles (fun n => gaddAll (.next Object) GetPot.wholeDoubles wholeNumbers
      wholeCast n twice fun _ => none) disk' :=
    (settles_iff_of_eventually (eventually_gaddAll into_twice _)).mpr hdisk'
  have hline : IsGdumpLine [.switch .withComment false, .file "perf.h5".toList]
      "perf.h5".toList :=
    { inputs := by decide
      path := rfl
      once := fun k => by cases k <;> decide
      apart := fun k => by cases k <;> decide }
  have huntouched : Untouched
      (Disk.contents (fun _ => none : Disk Int32) (String.ofList "perf.h5".toList)) :=
    untouched_of_none rfl
  have hname : isMinus "gdump".toList = false := by decide
  obtain ⟨saves, hsaves, hiff⟩ := gdump_shows_iff into_twice (by decide) (by decide) huntouched
    hsaved hname hline rfl rfl .empty fun _ => none
  have hshown : ∀ call ∈ twice, call.line.Shown writableFiles "./gdata".toList := by
    intro call hcall
    rw [List.eq_of_mem_replicate hcall]
    exact ⟨"hal", by decide +kernel⟩
  obtain ⟨out, hout, hshows⟩ := hiff.mpr hshown
  refine ⟨disk', out, saves, hsaved, hout, hshows, ?_⟩
  have hlength := congrArg List.length (GetPot.mapM_eq_some_iff.mp hsaves)
  rw [List.length_map, List.length_map] at hlength
  exact hlength.symm

end Grvy.Apps
