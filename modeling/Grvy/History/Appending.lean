import Grvy.History.Reporting

/-!
How the records of a machine accumulate in its table.

`SaveHistTiming` writes where the counter of the file says, and the table has been
extended beforehand by the call that filled a chunk, which may have been another
process. So the cell written is inside the table in every call, and `ReadAllHostData`
returns all records in the order saved. They are what the timers said unless a name of a
subtimer has been lost.
-/

namespace Grvy.History

open Grvy.Lib Grvy.Hdf5

variable {F : Type} (alloc : Allocator Object)

/-! ### Where a call writes -/

/-- `SaveHistTiming` up to `AppendHistData`: the table and the element to be written. -/
def approachAppend (hostenv : Hostenv) (m : Measurement F) (filename : String)
    (lib : Library F) : Option (ℕ × ℤ × H5 F) := do
  let (_, h5) ← openOrCreate alloc filename (.new lib)
  let (_, h5) ← groupOpenOrCreate alloc toplevel h5
  let hostlevel := toplevel ++ m.machinename
  let (_, h5) ← groupOpenOrCreate alloc hostlevel h5
  let (tableId, h5) ← tableOpenOrCreate alloc hostenv hostlevel h5
  let ((_, numMeasurements), h5) ← h5.attributeRead alloc hostlevel "num_measurements"
  let numMeasurements ← numMeasurements
  some (tableId, numMeasurements, h5)

/-- `SaveHistTiming` from `AppendHistData` on. -/
def appendAndLeave (m : Measurement F) (start : ℕ × ℤ × H5 F) : Option (Library F) := do
  let (tableId, numMeasurements, h5) := start
  let h5 ← appendHistData tableId numMeasurements m.header h5
  let numMeasurements ← int (numMeasurements + 1)
  let (_, h5) ← h5.attributeWrite alloc (toplevel ++ m.machinename) "num_measurements"
    numMeasurements
  let h5 ← extendTable tableId numMeasurements h5
  let h5 := { h5 with toLibrary := h5.h5dclose tableId }
  some h5.close.2.toLibrary

theorem saveHistTiming_eq (hostenv : Hostenv) (m : Measurement F) (filename : String)
    (lib : Library F) :
    saveHistTiming alloc hostenv m filename lib =
      (approachAppend alloc hostenv m filename lib).bind (appendAndLeave alloc m) := by
  simp only [saveHistTiming, approachAppend, appendAndCount, appendAndLeave,
    Option.bind_eq_bind, Option.bind_assoc, Option.bind_some]

/-- `AppendHistData` writes the element with this number, and it is inside the table. -/
def WritesInside (number tableId : ℕ) (numMeasurements : ℤ) (h5 : H5 F) : Prop :=
  ∀ f path, h5.handles.get tableId = some (.dataset f path) →
    ∃ t, (h5.contents f).datasets path = some t ∧ numMeasurements = number ∧
      numMeasurements < t.extent

/-! ### What is in the file -/

/-- The records that calls have appended for a machine, in the order of the calls. -/
def recordsOf (saves : List (Save F)) (machinename : String) : List (Sample F) :=
  ((saves.map Save.measurement).filter fun m =>
    hostPath m.machinename = hostPath machinename).map Measurement.record

/-- The calls for a machine find the names of their subtimers. -/
def NamesKept (saves : List (Save F)) (machinename : String) : Prop :=
  ∀ save ∈ saves, hostPath save.measurement.machinename = hostPath machinename →
    save.measurement.NamesKept

instance (saves : List (Save F)) (machinename : String) :
    Decidable (NamesKept saves machinename) :=
  inferInstanceAs (Decidable (∀ save ∈ saves, _ → _))

/-- The table of a machine has these records: they are counted, there is room for
another, and any process that reads the table gets them. -/
structure Stored (filename machinename : String) (records : List (Sample F)) (disk : Disk F) :
    Prop where
  count : (disk.contents filename).attributes (hostPath machinename) "num_measurements" =
    some (.num records.length)
  extent : ∃ t, (disk.contents filename).datasets (tablePath (hostPath machinename)) = some t ∧
    records.length < t.extent
  read : ∀ (process : HandleTable Object) (native : NativeOrder) (files : Files F),
    ∃ machines h5 loop,
      openHistory alloc native filename { handles := process, disk := disk } =
        some (machines, h5) ∧
      readHost alloc { version := none, h5 := h5, files := files } machinename =
        some (records, loop)

variable {alloc} {hostenv : Hostenv} {m : Measurement F} {filename machinename : String}
  {rs : List (Sample F)} {lib : Library F} {tableId : ℕ} {n : ℤ} {h5 : H5 F} {disk disk' : Disk F}
  {saves : List (Save F)}

theorem approachAppend_spec
    (kept : Kept (hostPath m.machinename) rs
      (lib.contents { name := filename, readonly := false }))
    (h : approachAppend alloc hostenv m filename lib = some (tableId, n, h5)) :
    WritesInside rs.length tableId n h5 := by
  let file : File := { name := filename, readonly := false }
  obtain ⟨⟨r₁, h5₁⟩, hopen, h⟩ := Option.bind_eq_some_iff.mp h
  obtain ⟨⟨r₂, h5₂⟩, htop, h⟩ := Option.bind_eq_some_iff.mp h
  obtain ⟨⟨r₃, h5₃⟩, hhost, h⟩ := Option.bind_eq_some_iff.mp h
  obtain ⟨⟨tableId', h5₄⟩, htable, h⟩ := Option.bind_eq_some_iff.mp h
  obtain ⟨⟨⟨r₅, count⟩, h5₅⟩, hread, h⟩ := Option.bind_eq_some_iff.mp h
  obtain ⟨n', hcount, h⟩ := Option.bind_eq_some_iff.mp h
  obtain ⟨rfl, rfl, rfl⟩ : tableId' = tableId ∧ n' = n ∧ h5₅ = h5 := by simpa using h
  intro f path hget
  obtain ⟨ready, hg, -, -, rfl | ⟨hget₄, present⟩⟩ :=
    opened_of_steps kept hopen htop hhost htable
  · rw [HandleTable.get_zero] at hget
    cases hget
  -- The counter is read, and that keeps the handle of the table.
  obtain ⟨h5₅', hread', silent⟩ := ready.attributeReadWith alloc Value.number (ready.exist _ hg)
    "num_measurements"
  rw [components_hostlevel, cString_numMeasurements, present.count] at hread'
  rw [Hdf5Class.attributeRead, hread'] at hread
  obtain ⟨⟨-, rfl⟩, rfl⟩ : (0 = r₅ ∧ some (rs.length : ℤ) = count) ∧ h5₅' = h5₅ := by
    simpa [Hdf5Class.readResult, Value.number] using hread
  obtain rfl := Option.some.inj hcount
  rw [silent.handles.keeps _ _ hget₄] at hget
  obtain ⟨rfl, rfl⟩ := Object.dataset.inj (Option.some.inj hget)
  obtain ⟨t, htable, holds⟩ := present.table
  refine ⟨t, ?_, rfl, Int.ofNat_lt.mpr holds.room⟩
  rw [silent.contents]
  exact htable

theorem Present.stored (present : Present (hostPath machinename) rs (disk.contents filename))
    (hdisk : disk filename = some (disk.contents filename))
    (htop : (disk.contents filename).hasGroup topPath = true)
    (hgroup : (disk.contents filename).hasGroup (hostPath machinename) = true) :
    Stored alloc filename machinename rs disk where
  count := present.count
  extent := by
    obtain ⟨t, htable, holds⟩ := present.table
    exact ⟨t, htable, holds.room⟩
  read process native files := by
    let lib : Library F := { handles := process, disk := disk }
    have hlib : lib.disk filename = some (disk.contents filename) := hdisk
    obtain ⟨h5, ready, hcontents, hopen⟩ := openHistory_spec alloc native hlib htop
    let loop : Loop F := { version := none, h5 := h5, files := files }
    have hstart : Ready { name := filename, readonly := true } loop.h5 := ready
    obtain ⟨h5', -, -, hread⟩ := readHost_spec alloc hstart
      (by rw [hcontents]; exact hgroup) (by rw [hcontents]; exact present)
    exact ⟨_, h5, _, hopen, hread⟩

/-- There is one list of records that a table has. -/
theorem Stored.records_eq {rs' : List (Sample F)} (h : Stored alloc filename machinename rs disk)
    (h' : Stored alloc filename machinename rs' disk) : rs = rs' := by
  obtain ⟨machines, h5, loop, hopen, hread⟩ := h.read .empty ⟨id, fun _ => .refl _⟩ fun _ => none
  obtain ⟨machines', h5', loop', hopen', hread'⟩ :=
    h'.read .empty ⟨id, fun _ => .refl _⟩ fun _ => none
  obtain ⟨-, rfl⟩ := Prod.mk.inj (Option.some.inj (hopen.symm.trans hopen'))
  exact (Prod.mk.inj (Option.some.inj (hread.symm.trans hread'))).1

/-- After any successful calls, the next one for a machine writes the element numbered by the
records of this machine, inside its table. -/
theorem writes_inside (untouched : Untouched (disk.contents filename))
    (hsaved : saveAll alloc filename saves disk = some disk') {next : Save F}
    (hhost : hostPath next.measurement.machinename = hostPath machinename)
    (happroach : approachAppend alloc next.hostenv next.measurement filename
      { handles := next.process, disk := disk' } = some (tableId, n, h5)) :
    WritesInside (recordsOf saves machinename).length tableId n h5 := by
  have database := untouched.database.saveAll hsaved
  rw [List.nil_append] at database
  have kept : Kept (hostPath machinename)
      (samplesAt (saves.map Save.measurement) (hostPath machinename)) (disk'.contents filename) :=
    database.kept _
  have hlength : (recordsOf saves machinename).length =
      (samplesAt (saves.map Save.measurement) (hostPath machinename)).length := by
    rw [recordsOf, samplesAt, List.length_map, List.length_map]
  rw [hlength]
  rw [← hhost] at kept ⊢
  exact approachAppend_spec kept happroach

/-- What has been written for a machine is counted, stored and read back in the order saved. -/
theorem stored_samplesAt (untouched : Untouched (disk.contents filename))
    (hsaved : saveAll alloc filename saves disk = some disk')
    (hne : recordsOf saves machinename ≠ []) :
    Stored alloc filename machinename
      (samplesAt (saves.map Save.measurement) (hostPath machinename)) disk' := by
  have database := untouched.database.saveAll hsaved
  rw [List.nil_append] at database
  obtain ⟨record, hrecord⟩ := List.exists_mem_of_ne_nil _ hne
  obtain ⟨m, hfilter, -⟩ := List.mem_map.mp hrecord
  obtain ⟨hm, hhost⟩ := List.mem_filter.mp hfilter
  rcases database.kept (components (cString machinename)) with ⟨hnil, -⟩ | ⟨-, present⟩
  · have hsample : m.header ∈
        samplesAt (saves.map Save.measurement) (hostPath machinename) :=
      List.mem_map_of_mem hfilter
    rw [hostPath, hnil] at hsample
    cases hsample
  · obtain ⟨htop, hgroup⟩ := database.hosts m hm
    rw [of_decide_eq_true hhost] at hgroup
    exact Present.stored present (Disk.eq_some_of_hasGroup htop) htop hgroup

/-- What is written are the records exactly if no name is lost. -/
theorem samplesAt_eq_recordsOf_iff :
    samplesAt (saves.map Save.measurement) (hostPath machinename) = recordsOf saves machinename ↔
      NamesKept saves machinename := by
  rw [samplesAt, recordsOf, List.map_inj_left]
  simp only [Measurement.header_eq_record_iff, List.mem_filter, List.mem_map,
    decide_eq_true_eq, and_imp, forall_exists_index, forall_apply_eq_imp_iff₂]
  rfl

/-- The calls for a machine stay inside its table, and `ReadAllHostData` returns the records that
they have appended, if there are any. -/
structure InOrder (alloc : Allocator Object) (filename machinename : String)
    (saves : List (Save F)) (disk : Disk F) : Prop where
  inside : ∀ next : Save F, hostPath next.measurement.machinename = hostPath machinename →
    ∀ tableId n h5, approachAppend alloc next.hostenv next.measurement filename
        { handles := next.process, disk := disk } = some (tableId, n, h5) →
      WritesInside (recordsOf saves machinename).length tableId n h5
  stored : recordsOf saves machinename ≠ [] →
    Stored alloc filename machinename (recordsOf saves machinename) disk

/-- **Appending.** After any successful calls, the records of a machine are inside its table,
counted and read back in the order saved if and only if no call for the machine has lost the
name of a subtimer. -/
theorem appends_in_order_iff (alloc : Allocator Object) (filename machinename : String)
    (untouched : Untouched (disk.contents filename))
    (hsaved : saveAll alloc filename saves disk = some disk') :
    InOrder alloc filename machinename saves disk' ↔ NamesKept saves machinename := by
  constructor
  · intro inOrder
    by_cases hnil : recordsOf saves machinename = []
    · rw [← samplesAt_eq_recordsOf_iff, hnil, samplesAt, List.map_eq_nil_iff]
      exact List.map_eq_nil_iff.mp hnil
    · rw [← samplesAt_eq_recordsOf_iff]
      exact (stored_samplesAt untouched hsaved hnil).records_eq (inOrder.stored hnil)
  · intro hkept
    refine ⟨fun next hhost tableId n h5 => writes_inside untouched hsaved hhost, fun hne => ?_⟩
    rw [← samplesAt_eq_recordsOf_iff.mpr hkept]
    exact stored_samplesAt untouched hsaved hne

/-! ### Measurements with subtimers -/

/-- What a program saves of its timers, with what is found in place of their names. -/
def timerSave (machinename experiment : String) (timing : ℕ) (names : List (String × String)) :
    Save ℕ :=
  let save := gaddSave machinename experiment timing
  { save with
    measurement :=
      { save.measurement with
        subtimers := names.map fun (name, found) =>
          { timerName := name
            measurement := 1
            mean := 1
            variance := 0
            count := 1
            found := found } } }

/-- Two calls for one machine, one with a name that is still there, and one call for another
machine that loses its names. -/
def mixedSaves : List (Save ℕ) :=
  [gaddSave "hal" "ring" 3, timerSave "sal" "ring" 5 [("read", "solve"), ("solve", "solve")],
    timerSave "hal" "star" 4 [("solve", "solve")]]

theorem stored_of_two_machines :
    ∃ disk', saveAll (.next Object) "perf.h5" mixedSaves (fun _ => none) = some disk' ∧
      InOrder (.next Object) "perf.h5" "hal" mixedSaves disk' ∧
      ¬InOrder (.next Object) "perf.h5" "sal" mixedSaves disk' := by
  have hrun : (saveAll (.next Object) "perf.h5" mixedSaves fun _ => none).any
      (fun _ => true) = true := by
    decide +kernel
  obtain ⟨disk', hsaved, -⟩ := exists_some_of_any hrun
  have untouched : Untouched (Disk.contents (fun _ => none : Disk ℕ) "perf.h5") :=
    untouched_of_none rfl
  refine ⟨disk', hsaved, (appends_in_order_iff _ _ "hal" untouched hsaved).mpr ?_, fun h => ?_⟩
  · decide +kernel
  · have hkept := (appends_in_order_iff _ _ "sal" untouched hsaved).mp h
    revert hkept
    decide +kernel

/-- Both timers of a program are read back under the name of the last. -/
theorem subtimer_name_lost :
    ∃ disk', saveAll (.next Object) "perf.h5"
        [timerSave "hal" "ring" 3 [("read", "solve"), ("solve", "solve")]] (fun _ => none) =
          some disk' ∧
      ¬InOrder (.next Object) "perf.h5" "hal"
        [timerSave "hal" "ring" 3 [("read", "solve"), ("solve", "solve")]] disk' := by
  have hrun : (saveAll (.next Object) "perf.h5"
      [timerSave "hal" "ring" 3 [("read", "solve"), ("solve", "solve")]] fun _ => none).any
        (fun _ => true) = true := by
    decide +kernel
  obtain ⟨disk', hsaved, -⟩ := exists_some_of_any hrun
  have untouched : Untouched (Disk.contents (fun _ => none : Disk ℕ) "perf.h5") :=
    untouched_of_none rfl
  refine ⟨disk', hsaved, fun inOrder => ?_⟩
  have hne : recordsOf [timerSave "hal" "ring" 3 [("read", "solve"), ("solve", "solve")]] "hal" ≠
      [] := by
    decide +kernel
  have hsame := (stored_samplesAt untouched hsaved hne).records_eq (inOrder.stored hne)
  revert hsame
  decide +kernel

end Grvy.History
