import Grvy.Lookup.Input
import Grvy.Ocore.Refinement
import Grvy.Ocore.Session

/-!
The options of Ocore: how `Initialize` reads them on the master and passes them
on to the other ranks.

The master alone opens the input file. Each option reaches the others by a
broadcast of its own, and a rank keeps what its constructor has set where there
is none. Two options have none, so that all ranks hold the master's options if
and only if the file sets these two as the constructor does.
-/

namespace Grvy.Ocore

open Std (TreeMap)
open Grvy.Lib Grvy.Lookup

/-! ### Options -/

/-- The members of an Ocore object that `Initialize` reads from a file. -/
structure Options where
  useDiskOverflow : Bool
  allowEmptyRecords : Bool
  dumpWatermarkRatio : ℚ
  maxPoolsizeMBs : ℤ
  maxMapsizeMBs : ℤ
  blocksize : ℤ
  dumpStats : Bool
  statsfile : String
  deriving DecidableEq

namespace Options

/-- The constructor, which leaves `dump_stats` as it is. -/
def new (dumpStats : Bool) : Options where
  useDiskOverflow := true
  allowEmptyRecords := true
  dumpWatermarkRatio := 1 / 10
  maxPoolsizeMBs := 20
  maxMapsizeMBs := 10
  blocksize := 8192
  dumpStats := dumpStats
  statsfile := ""

/-- The input sanity check. -/
def Sane (o : Options) : Prop :=
  0 < o.dumpWatermarkRatio ∧ o.dumpWatermarkRatio < 1 ∧ 0 < o.maxPoolsizeMBs ∧
    0 < o.maxMapsizeMBs ∧ 0 < o.blocksize

instance (o : Options) : Decidable o.Sane := inferInstanceAs (Decidable (_ ∧ _))

/-- `blocksize*word_size`, a product of `int`s: past their range the machines keep the low
bits. -/
def blockBytes (o : Options) : ℤ := (o.blocksize * wordSize).bmod (2 ^ 32)

/-- The settings of the storage functions. -/
def limits (o : Options) : Limits where
  dumpWatermarkRatio := o.dumpWatermarkRatio
  maxNumRecords := (o.maxPoolsizeMBs * 1024 * 1024 / o.blockBytes).toNat
  useDiskOverflow := o.useDiskOverflow
  rounding := BinaryFormat.binary64.rounding

/-- The bytes of a block and the number of records are an `int`. Otherwise a task reserves
another pool than the options say, or fails to. -/
def Fits (o : Options) : Prop :=
  o.blocksize * wordSize < 2 ^ 31 ∧
    o.maxPoolsizeMBs * 1024 * 1024 / (o.blocksize * wordSize) < 2 ^ 31

instance (o : Options) : Decidable o.Fits := inferInstanceAs (Decidable (_ ∧ _))

theorem blockBytes_eq {o : Options} (hsane : o.Sane) (hfits : o.Fits) :
    o.blockBytes = o.blocksize * wordSize := by
  have hpos := hsane.2.2.2.2
  have hmax := hfits.1
  rw [blockBytes]
  rw [wordSize] at hmax ⊢
  exact Int.bmod_eq_of_le (by omega) (by omega)

/-- Options that pass the check and fit are settings `Initialize` accepts. -/
def settings (o : Options) (h : o.Sane) : Settings where
  watermarkRatio := o.dumpWatermarkRatio
  maxPoolsizeMBs := o.maxPoolsizeMBs.toNat
  blocksize := o.blocksize.toNat
  useDiskOverflow := o.useDiskOverflow
  ratio_pos := h.1
  ratio_lt_one := h.2.1
  poolsize_pos := by
    have := h.2.2.1
    omega
  blocksize_pos := by
    have := h.2.2.2.2
    omega

theorem limits_eq {o : Options} (hsane : o.Sane) (hfits : o.Fits) :
    o.limits = (o.settings hsane).limits := by
  have hcount : (o.maxPoolsizeMBs * 1024 * 1024 / o.blockBytes).toNat =
      o.maxPoolsizeMBs.toNat * 1024 * 1024 / (o.blocksize.toNat * wordSize) := by
    have hpool := hsane.2.2.1.le
    have hblock := hsane.2.2.2.2.le
    rw [blockBytes_eq hsane hfits]
    generalize o.maxPoolsizeMBs = pool at hpool ⊢
    generalize o.blocksize = block at hblock ⊢
    lift pool to ℕ using hpool
    lift block to ℕ using hblock
    norm_cast
  rw [limits, hcount]
  rfl

end Options

/-! ### Reading the file -/

/-- `flag` and the input object. -/
structure Parse where
  flag : ℕ
  iparse : Input

namespace Parse

/-- `flag *= iparse.Read_Var(var,&value)`; `value` is `old` before. -/
def read (k : Kind) (var : String) (old : k.type) (p : Parse) : k.type × Parse :=
  let r := p.iparse.readVar k var k.getDefault
  (r.2.1.getD old, { flag := p.flag * r.1, iparse := r.2.2 })

def readBool (var : String) (varDef old : Bool) (p : Parse) : Bool × Parse :=
  let r := p.iparse.readBool var varDef
  (r.2.1.getD old, { flag := p.flag * r.1, iparse := r.2.2 })

end Parse

/-- `tmp_use_ocore` on the master, with the input object. -/
def readEnableOcore (file : Option DiskFile) : ℤ × Input :=
  let opening := Input.new.openFile file
  if opening.1 = 0 then (0, opening.2)
  else
    let iparse := opening.2.registerVar .int "grvy/mpi_ocore/enable_ocore" (0 : ℤ)
    let p := Parse.read .int "grvy/mpi_ocore/enable_ocore" (0 : ℤ) { flag := 1, iparse := iparse }
    (p.1, p.2.iparse)

/-- Register default values. -/
def registerOptions (o : Options) (iparse : Input) : Input :=
  (((((((iparse.registerVar .string "grvy/mpi_ocore/statsfile" "grvy_ocore_stats.dat").registerVar
    .int "grvy/mpi_ocore/use_disk_overflow" (1 : ℤ)).registerVar
    .int "grvy/mpi_ocore/allow_empty_records" (0 : ℤ)).registerVar
    .double "grvy/mpi_ocore/watermark_ratio" o.dumpWatermarkRatio).registerVar
    .int "grvy/mpi_ocore/max_pool_size_in_mbs" o.maxPoolsizeMBs).registerVar
    .int "grvy/mpi_ocore/max_map_size_in_mbs" o.maxMapsizeMBs).registerVar
    .int "grvy/mpi_ocore/blocksize" o.blocksize)

/-- `(tmp == 1) ? true : false` -/
def isOn (tmp : ℤ) : Bool := decide (tmp = 1)

/-- Read any user-provided inputs. -/
def readOptions (o : Options) (p : Parse) : Options × Parse :=
  let useOverflow := p.read .int "grvy/mpi_ocore/use_disk_overflow" (0 : ℤ)
  let allowEmpties := useOverflow.2.read .int "grvy/mpi_ocore/allow_empty_records" (0 : ℤ)
  let ratio := allowEmpties.2.read .double "grvy/mpi_ocore/watermark_ratio" o.dumpWatermarkRatio
  let poolsize := ratio.2.read .int "grvy/mpi_ocore/max_pool_size_in_mbs" o.maxPoolsizeMBs
  let mapsize := poolsize.2.read .int "grvy/mpi_ocore/max_map_size_in_mbs" o.maxMapsizeMBs
  let blocksize := mapsize.2.read .int "grvy/mpi_ocore/blocksize" o.blocksize
  let dumpStats := blocksize.2.readBool "grvy/mpi_ocore/dump_raw_statistics" true o.dumpStats
  let statsfile :=
    if dumpStats.1 then dumpStats.2.read .string "grvy/mpi_ocore/statsfile" o.statsfile
    else (o.statsfile, dumpStats.2)
  ({ useDiskOverflow := isOn useOverflow.1
     allowEmptyRecords := isOn allowEmpties.1
     dumpWatermarkRatio := ratio.1
     maxPoolsizeMBs := poolsize.1
     maxMapsizeMBs := mapsize.1
     blocksize := blocksize.1
     dumpStats := dumpStats.1
     statsfile := statsfile.1 }, statsfile.2)

/-! ### Broadcasts -/

/-- `MPI_Bcast` from rank 0 of what `get` reads and `set` writes. -/
def bcast {α : Type} (get : Options → α) (set : α → Options → Options) (options : ℕ → Options) :
    ℕ → Options :=
  fun rank => set (get (options 0)) (options rank)

/-- Bcast inputs to all Ocore children. The name of the file is sent as a C string,
and kept by the other ranks. -/
def bcastInputs (options : ℕ → Options) : ℕ → Options :=
  let options :=
    bcast Options.dumpWatermarkRatio (fun v o => { o with dumpWatermarkRatio := v }) options
  let options := bcast Options.maxPoolsizeMBs (fun v o => { o with maxPoolsizeMBs := v }) options
  let options := bcast Options.maxMapsizeMBs (fun v o => { o with maxMapsizeMBs := v }) options
  let options := bcast Options.blocksize (fun v o => { o with blocksize := v }) options
  let options := bcast Options.dumpStats (fun v o => { o with dumpStats := v }) options
  fun rank =>
    if rank = 0 then options 0
    else
      bcast (Kind.cStr .string ∘ Options.statsfile) (fun v o => { o with statsfile := v }) options
        rank

/-- How `Initialize` can end early. -/
inductive NotStarted
  /-- It returns 1, Ocore being disabled. -/
  | disabled
  /-- `Abort`, or a failed assertion. -/
  | aborted

/-- The options part of `Initialize`, on all ranks. -/
def initializeOptions (file : Option DiskFile) (dumpStats : ℕ → Bool) :
    Except NotStarted (ℕ → Options) :=
  let options := fun rank => Options.new (dumpStats rank)
  let useOcore := readEnableOcore file
  if useOcore.1 ≠ 1 then .error .disabled
  else
    let parsed := readOptions (options 0)
      { flag := 1, iparse := registerOptions (options 0) useOcore.2 }
    if parsed.2.flag = 0 then .error .aborted
    else if ¬parsed.1.Sane then .error .aborted
    else .ok (bcastInputs (Function.update options 0 parsed.1))

/-! ### What the master reads -/

section Reading

variable {k : Kind} {var : String} {iparse : Input} {ifile : GetPot} {o : Options}

/-- An option with a registered default is always found. -/
theorem Parse.read_eq {d : k.type} (hopen : iparse.opened = some ifile)
    (hreg : iparse.getVar k var = some d) (flag : ℕ) (old : k.type) :
    Parse.read k var old { flag := flag, iparse := iparse } =
      (ifile.valueOr k var d, { flag := flag, iparse := iparse }) := by
  simp only [Parse.read, Input.readVar_registered hopen hreg, Option.getD_some, mul_one]

theorem Parse.readBool_eq (hopen : iparse.opened = some ifile) (flag : ℕ) (varDef old : Bool) :
    Parse.readBool var varDef old { flag := flag, iparse := iparse } =
      (ifile.getBool var varDef,
        { flag := flag, iparse := iparse.registerBool var varDef }) := by
  simp only [Parse.readBool, Input.readBool_opened hopen, Option.getD_some, mul_one]

/-- What the master makes of an open file. -/
def optionsIn (ifile : GetPot) (o : Options) : Options where
  useDiskOverflow := isOn (ifile.valueOr .int "grvy/mpi_ocore/use_disk_overflow" (1 : ℤ))
  allowEmptyRecords := isOn (ifile.valueOr .int "grvy/mpi_ocore/allow_empty_records" (0 : ℤ))
  dumpWatermarkRatio := ifile.valueOr .double "grvy/mpi_ocore/watermark_ratio" o.dumpWatermarkRatio
  maxPoolsizeMBs := ifile.valueOr .int "grvy/mpi_ocore/max_pool_size_in_mbs" o.maxPoolsizeMBs
  maxMapsizeMBs := ifile.valueOr .int "grvy/mpi_ocore/max_map_size_in_mbs" o.maxMapsizeMBs
  blocksize := ifile.valueOr .int "grvy/mpi_ocore/blocksize" o.blocksize
  dumpStats := ifile.getBool "grvy/mpi_ocore/dump_raw_statistics" true
  statsfile :=
    if ifile.getBool "grvy/mpi_ocore/dump_raw_statistics" true then
      ifile.valueOr .string "grvy/mpi_ocore/statsfile" "grvy_ocore_stats.dat"
    else o.statsfile

theorem getVar_registerOptions (o : Options) (iparse : Input) :
    (registerOptions o iparse).getVar .int "grvy/mpi_ocore/use_disk_overflow" = some (1 : ℤ) ∧
    (registerOptions o iparse).getVar .int "grvy/mpi_ocore/allow_empty_records" = some (0 : ℤ) ∧
    (registerOptions o iparse).getVar .double "grvy/mpi_ocore/watermark_ratio" =
      some o.dumpWatermarkRatio ∧
    (registerOptions o iparse).getVar .int "grvy/mpi_ocore/max_pool_size_in_mbs" =
      some o.maxPoolsizeMBs ∧
    (registerOptions o iparse).getVar .int "grvy/mpi_ocore/max_map_size_in_mbs" =
      some o.maxMapsizeMBs ∧
    (registerOptions o iparse).getVar .int "grvy/mpi_ocore/blocksize" = some o.blocksize ∧
    (registerOptions o iparse).getVar .string "grvy/mpi_ocore/statsfile" =
      some "grvy_ocore_stats.dat" := by
  simp (disch := decide) only [registerOptions, Input.getVar_registerVar,
    Input.getVar_registerVar_of_ne, Input.getVar_registerVar_of_ne_kind, and_self]

theorem readOptions_registered (flag : ℕ) (hopen : iparse.opened = some ifile) :
    (readOptions o { flag := flag, iparse := registerOptions o iparse }).1 =
        optionsIn ifile o ∧
      (readOptions o { flag := flag, iparse := registerOptions o iparse }).2.flag = flag := by
  obtain ⟨hoverflow, hempties, hratio, hpool, hmap, hblock, hstats⟩ :=
    getVar_registerOptions o iparse
  have hopen' : (registerOptions o iparse).opened = some ifile := by
    simp only [registerOptions, Input.opened_registerVar, hopen]
  generalize registerOptions o iparse = registered at *
  rw [readOptions]
  simp only [Parse.read_eq hopen' hoverflow, Parse.read_eq hopen' hempties,
    Parse.read_eq hopen' hratio, Parse.read_eq hopen' hpool, Parse.read_eq hopen' hmap,
    Parse.read_eq hopen' hblock, Parse.readBool_eq hopen', optionsIn]
  cases ifile.getBool "grvy/mpi_ocore/dump_raw_statistics" true with
  | false => simp
  | true =>
      simp only [if_true]
      let after := registered.registerBool "grvy/mpi_ocore/dump_raw_statistics" true
      have hafter : after.opened = some ifile := hopen'
      have hstats' : after.getVar .string "grvy/mpi_ocore/statsfile" =
          some "grvy_ocore_stats.dat" := hstats
      rw [Parse.read_eq hafter hstats']
      exact ⟨rfl, rfl⟩

/-- A file can be opened only if it can be read. -/
theorem opened_of_openFile {file : Option DiskFile} {s : Input}
    (h : (s.openFile file).1 ≠ 0) :
    ∃ f, file = some f ∧ (s.openFile file).2.opened = some f.contents := by
  simp only [Input.openFile] at h ⊢
  split at h
  · exact absurd rfl h
  · cases file with
    | none => exact absurd rfl h
    | some f =>
        rename_i hinit
        simp only [if_neg hinit] at h ⊢
        split at h
        · exact absurd rfl h
        · rename_i hdos
          simp only [if_neg hdos, Input.attach] at h ⊢
          split at h
          · exact absurd rfl h
          · rename_i hsize
            rw [if_neg hsize]
            exact ⟨f, rfl, rfl⟩

/-- Ocore is enabled by a file that can be read, and the file stays open. -/
theorem opened_of_readEnableOcore {file : Option DiskFile} (h : (readEnableOcore file).1 = 1) :
    ∃ f, file = some f ∧ (readEnableOcore file).2.opened = some f.contents := by
  rw [readEnableOcore] at h ⊢
  by_cases hopening : (Input.new.openFile file).1 = 0
  · simp only [if_pos hopening] at h
    cases h
  · obtain ⟨f, hfile, hopen⟩ := opened_of_openFile hopening
    refine ⟨f, hfile, ?_⟩
    let iparse := (Input.new.openFile file).2.registerVar .int "grvy/mpi_ocore/enable_ocore" (0 : ℤ)
    have hopen' : iparse.opened = some f.contents := hopen
    have hreg : iparse.getVar .int "grvy/mpi_ocore/enable_ocore" = some (0 : ℤ) :=
      Input.getVar_registerVar _
    simp only [if_neg hopening]
    rw [Parse.read_eq hopen' hreg]
    exact hopen'

end Reading

/-! ### What reaches the other ranks -/

section Broadcast

variable {file : Option DiskFile} {dumpStats : ℕ → Bool} {options : ℕ → Options} {ifile : GetPot}
  {rank : ℕ}

/-- The options of all ranks once the master has read a file. -/
def broadcast (ifile : GetPot) (dumpStats : ℕ → Bool) : ℕ → Options :=
  bcastInputs (Function.update (fun rank => Options.new (dumpStats rank)) 0
    (optionsIn ifile (Options.new (dumpStats 0))))

theorem initializeOptions_ok (h : initializeOptions file dumpStats = .ok options) :
    ∃ f, file = some f ∧ (optionsIn f.contents (Options.new (dumpStats 0))).Sane ∧
      options = broadcast f.contents dumpStats := by
  rw [initializeOptions] at h
  by_cases huse : (readEnableOcore file).1 = 1
  · obtain ⟨f, hfile, hopen⟩ := opened_of_readEnableOcore huse
    obtain ⟨hoptions, hflag⟩ :=
      readOptions_registered (o := Options.new (dumpStats 0)) 1 hopen
    simp only [huse, ne_eq, not_true_eq_false, if_false, hoptions, hflag, one_ne_zero] at h
    by_cases hsane : (optionsIn f.contents (Options.new (dumpStats 0))).Sane
    · simp only [hsane, not_true_eq_false, if_false, Except.ok.injEq] at h
      exact ⟨f, hfile, hsane, h.symm⟩
    · simp [hsane] at h
  · simp [huse] at h

@[simp] theorem bcastInputs_zero (options : ℕ → Options) : bcastInputs options 0 = options 0 := rfl

@[simp] theorem broadcast_zero :
    broadcast ifile dumpStats 0 = optionsIn ifile (Options.new (dumpStats 0)) := by
  simp [broadcast]

theorem broadcast_of_ne (h : rank ≠ 0) :
    broadcast ifile dumpStats rank =
      { broadcast ifile dumpStats 0 with
        useDiskOverflow := true
        allowEmptyRecords := true
        statsfile := Kind.cStr .string (broadcast ifile dumpStats 0).statsfile } := by
  have hfresh : Function.update (fun rank => Options.new (dumpStats rank)) 0
      (optionsIn ifile (Options.new (dumpStats 0))) rank = Options.new (dumpStats rank) :=
    Function.update_of_ne h _ _
  rw [broadcast_zero, broadcast, bcastInputs]
  simp only [if_neg h, bcast, hfresh, Function.update_self]
  rfl

/-- The name of the statistics file has no null character. -/
theorem cStr_statsfile (ifile : GetPot) (dumpStats : Bool) :
    Kind.cStr .string (optionsIn ifile (Options.new dumpStats)).statsfile =
      (optionsIn ifile (Options.new dumpStats)).statsfile := by
  simp only [optionsIn, Options.new]
  split
  · exact ifile.cStr_valueOr (k := .string) (d := "grvy_ocore_stats.dat") (by decide +kernel)
  · decide +kernel

/-- All ranks hold the options of the master. -/
def SameOptions (layout : Layout) (options : ℕ → Options) : Prop :=
  ∀ rank < layout.nprocs, options rank = options 0

/-- The file leaves the two options without a broadcast as the constructor sets
them. A value that means "no default" is taken for a missing one. -/
def KeepsDefaults (ifile : GetPot) : Prop :=
  (ifile.value .int "grvy/mpi_ocore/use_disk_overflow" = some (1 : ℤ) ∨
    ifile.value .int "grvy/mpi_ocore/use_disk_overflow" = none ∨
    ifile.value .int "grvy/mpi_ocore/use_disk_overflow" = some (-9999999 : ℤ)) ∧
  ifile.value .int "grvy/mpi_ocore/allow_empty_records" = some (1 : ℤ)

theorem keepsDefaults_iff (o : Options) :
    KeepsDefaults ifile ↔
      (optionsIn ifile o).useDiskOverflow = true ∧
        (optionsIn ifile o).allowEmptyRecords = true := by
  have hone : (1 : ℤ) ≠ Kind.int.getDefault := by decide
  simp only [optionsIn, isOn, decide_eq_true_eq]
  rw [ifile.valueOr_eq_iff .int "grvy/mpi_ocore/use_disk_overflow" (1 : ℤ) hone,
    ifile.valueOr_eq_iff .int "grvy/mpi_ocore/allow_empty_records" (0 : ℤ) hone]
  simp [KeepsDefaults, Kind.getDefault]

theorem sameOptions_iff (layout : Layout) :
    SameOptions layout (broadcast ifile dumpStats) ↔ KeepsDefaults ifile := by
  rw [keepsDefaults_iff (Options.new (dumpStats 0)), ← broadcast_zero]
  constructor
  · intro hsame
    -- There is a rank besides the master's.
    have hrank : 1 < layout.nprocs := by
      have := layout.startingRank_pos
      have := layout.numOcoreTasks_pos
      rw [Layout.nprocs]
      omega
    have hone := hsame 1 hrank
    rw [broadcast_of_ne one_ne_zero] at hone
    exact ⟨(congrArg Options.useDiskOverflow hone).symm,
      (congrArg Options.allowEmptyRecords hone).symm⟩
  · rintro ⟨hoverflow, hempties⟩ rank -
    by_cases hrank : rank = 0
    · rw [hrank]
    · have hstats := cStr_statsfile ifile (dumpStats 0)
      rw [← broadcast_zero] at hstats
      rw [broadcast_of_ne hrank, hstats]
      generalize broadcast ifile dumpStats 0 = master at hoverflow hempties
      cases master
      cases hoverflow
      cases hempties
      rfl

end Broadcast

/-! ### What the options are for -/

section Effect

variable {Block : Type} {q : DumpQueue} {data : Block} {job : Job Block} {rank : ℕ}

/-- No request makes the task dump records to disk, and a full pool aborts. -/
def NeverDumps (lim : Limits) (q : DumpQueue) (data : Block) : Prop :=
  ∀ reqs answers s, Storage.run lim q reqs (initStorage lim data) = .ok (answers, s) →
    s.overflowTriggered = false ∧
      ∀ key block, s.smap[key]? = none → (lim.maxNumRecords : ℤ) ≤ s.numActiveRecords →
        s.serve lim q (.storeData key block) = .error .ramdiskFull

/-- A worker that reads an index it has not written before calls `Abort`. -/
def EmptyReadsAbort (job : Job Block) (rank : ℕ) : Prop :=
  ∀ (calls : List (Call Block)) (offset : SizeT), (∀ data, .write offset data ∉ calls) →
    Session.runAll job rank (calls ++ [.read offset]) .new = none

theorem getFreeRecord_full {lim : Limits} {s : Storage Block} (hlim : lim.useDiskOverflow = false)
    (hfull : (lim.maxNumRecords : ℤ) ≤ s.numActiveRecords) :
    s.getFreeRecord lim q = .error .ramdiskFull := by
  rw [Storage.getFreeRecord, if_neg (not_lt.mpr hfull), hlim]
  rfl

/-- A slot is found without an overflow, or not at all. -/
theorem overflowTriggered_getFreeRecord {lim : Limits} (hlim : lim.useDiskOverflow = false)
    {s s' : Storage Block} {slot : ℕ} (h : s.getFreeRecord lim q = .ok (slot, s')) :
    s'.overflowTriggered = s.overflowTriggered := by
  obtain ⟨-, -, -, rfl⟩ | ⟨rest, -, -, rfl⟩ | ⟨s₁, rest, -, hlim', -, -, -⟩ :=
    Storage.getFreeRecord_cases h
  · rfl
  · rfl
  · rw [hlim] at hlim'
    cases hlim'

/-- Without `use_disk_overflow` no request triggers an overflow. -/
theorem overflowTriggered_serve {lim : Limits} (hlim : lim.useDiskOverflow = false)
    {r : Request Block} {s s' : Storage Block} {answer : Option Block}
    (h : s.serve lim q r = .ok (answer, s')) : s'.overflowTriggered = s.overflowTriggered := by
  cases r with
  | storeData key block =>
      obtain ⟨-, d, s₁, pool, fpTmp, henter, rfl⟩ := Storage.serve_storeData_ok h
      obtain ⟨-, rfl⟩ | ⟨slot, s₂, -, hget, -, rfl⟩ := Storage.enterRecord_cases henter
      · rfl
      · change s₂.overflowTriggered = s.overflowTriggered
        exact overflowTriggered_getFreeRecord hlim hget
  | pullData key =>
      obtain ⟨d, block, -, -, -, rfl⟩ := Storage.serve_pullData_ok h
      rfl

theorem overflowTriggered_run {lim : Limits} (hlim : lim.useDiskOverflow = false)
    {reqs : List (Request Block)} {s s' : Storage Block} {answers : List (Option Block)}
    (h : Storage.run lim q reqs s = .ok (answers, s')) :
    s'.overflowTriggered = s.overflowTriggered := by
  induction reqs generalizing s answers with
  | nil =>
      cases h
      rfl
  | cons r reqs ih =>
      obtain ⟨answer, rest, s₁, hserve, hrest, -⟩ := Storage.run_cons_ok h
      exact (ih hrest).trans (overflowTriggered_serve hlim hserve)

theorem neverDumps {lim : Limits} (hlim : lim.useDiskOverflow = false) (q : DumpQueue)
    (data : Block) : NeverDumps lim q data := by
  intro reqs answers s hrun
  refine ⟨overflowTriggered_run hlim hrun, ?_⟩
  intro key block hnew hfull
  rw [Storage.serve, Storage.storeData, Storage.enterRecord, hnew]
  simp only [getFreeRecord_full hlim hfull]
  rfl

/-- A call makes known at most the index it writes. -/
theorem unknown_run {ss ss' : Session Block} {c : Call Block} {offset : SizeT}
    (hunknown : ss.client.rankMap[offset]? = none) (hc : ∀ data, c ≠ .write offset data)
    (h : ss.run job rank c = some ss') : ss'.client.rankMap[offset]? = none := by
  obtain ⟨client, posted, popped, outcome, hplan, -, rfl⟩ | ⟨-, rfl⟩ := Session.run_cases h
  · cases (Client.planned_of_plan hplan).1 with
    | @write index data _ _ _ hafter _ _ =>
        have hne : offset ≠ index := fun heq => hc data (heq ▸ rfl)
        change client.rankMap[offset]? = none
        rw [hafter, if_neg hne, hunknown]
    | read _ _ _ => exact hunknown
    | pop _ _ _ => simp only [Client.forget, TreeMap.getElem?_erase, hunknown, ite_self]
  · exact hunknown

theorem unknown_runAll {ss ss' : Session Block} {calls : List (Call Block)} {offset : SizeT}
    (hunknown : ss.client.rankMap[offset]? = none) (hcalls : ∀ data, .write offset data ∉ calls)
    (h : Session.runAll job rank calls ss = some ss') : ss'.client.rankMap[offset]? = none := by
  induction calls generalizing ss with
  | nil =>
      cases h
      exact hunknown
  | cons c calls ih =>
      obtain ⟨ss₁, hrun, hrest⟩ := Option.bind_eq_some_iff.mp h
      refine ih (unknown_run hunknown (fun data hc => ?_) hrun) (fun data hmem => ?_) hrest
      · exact hcalls data (hc ▸ List.mem_cons_self)
      · exact hcalls data (List.mem_cons_of_mem _ hmem)

theorem emptyReadsAbort (h : job.allowEmptyRecordsOn rank = false) : EmptyReadsAbort job rank := by
  intro calls offset hcalls
  rw [Session.runAll_append]
  cases hrun : Session.runAll job rank calls .new with
  | none => rfl
  | some ss =>
      have hunknown := unknown_runAll (by simp [Session.new, Client.new]) hcalls hrun
      simp [Session.runAll, Session.run, Client.plan, hunknown, h]

end Effect

/-! ### The options of a job -/

section Options

variable {Block : Type} {file : Option DiskFile} {dumpStats : ℕ → Bool} {options : ℕ → Options}

/-- The job with the options that `Initialize` has left behind. -/
def Job.withOptions (job : Job Block) (options : ℕ → Options) : Job Block :=
  { job with
    allowEmptyRecords := (options 0).allowEmptyRecords
    dumpStats := (options 0).dumpStats }

/-- Each rank runs with its own options. -/
theorem Job.options_withOptions (h : initializeOptions file dumpStats = .ok options)
    (job : Job Block) (rank : ℕ) :
    (job.withOptions options).allowEmptyRecordsOn rank = (options rank).allowEmptyRecords ∧
      (job.withOptions options).dumpStats = (options rank).dumpStats := by
  obtain ⟨f, -, -, rfl⟩ := initializeOptions_ok h
  by_cases hrank : rank = 0
  · rw [hrank]
    exact ⟨rfl, rfl⟩
  · rw [broadcast_of_ne hrank]
    exact ⟨if_neg hrank, rfl⟩

/-- All ranks hold the options of the master, and run to that effect. -/
structure OptionsShared (job : Job Block) (options : ℕ → Options) (q : DumpQueue) (data : Block) :
    Prop where
  same : SameOptions job.toLayout options
  overflow : (options 0).useDiskOverflow = false → ∀ rank, job.startingRank ≤ rank →
    rank < job.nprocs → NeverDumps (options rank).limits q data
  empty : (options 0).allowEmptyRecords = false → ∀ rank < job.startingRank,
    EmptyReadsAbort (job.withOptions options) rank

/-- Options that are the same have the effect the master's have. -/
theorem SameOptions.shared (h : initializeOptions file dumpStats = .ok options) {job : Job Block}
    (hsame : SameOptions job.toLayout options) (q : DumpQueue) (data : Block) :
    OptionsShared job options q data where
  same := hsame
  overflow hoff rank _ hrank := neverDumps ((hsame rank hrank).symm ▸ hoff) q data
  empty hoff rank hrank := by
    have hbelow : rank < job.nprocs := by
      rw [Layout.nprocs]
      omega
    have hon := (job.options_withOptions h rank).1
    rw [hsame rank hbelow, hoff] at hon
    exact emptyReadsAbort hon

/-- Once the master has accepted a file, all ranks run with its options if and only
if the file keeps the two defaults that are not passed on. -/
theorem options_shared_iff (h : initializeOptions file dumpStats = .ok options)
    (job : Job Block) (q : DumpQueue) (data : Block) :
    OptionsShared job options q data ↔ ∃ f, file = some f ∧ KeepsDefaults f.contents := by
  obtain ⟨f, rfl, -, hoptions⟩ := initializeOptions_ok h
  have hiff : SameOptions job.toLayout options ↔ KeepsDefaults f.contents :=
    hoptions ▸ sameOptions_iff job.toLayout
  constructor
  · intro hshared
    exact ⟨f, rfl, hiff.mp hshared.same⟩
  · rintro ⟨f', hf', hkeeps⟩
    cases hf'
    exact (hiff.mpr hkeeps).shared h q data

end Options

/-! ### Three input files -/

/-- A file with integer options only, and a watermark ratio of one half. -/
def optionFile (ints : List (String × ℤ)) : DiskFile where
  dosNewline := false
  contents :=
    { value := fun k var =>
        match k with
        | .int => ints.lookup var
        | .double => if var = "grvy/mpi_ocore/watermark_ratio" then some (1 / 2 : ℚ) else none
        | _ => none
      cStr_value := fun k var v h => by
        cases k with
        | string => cases h
        | _ => rfl
      bool := fun _ => none
      size := 2 }

/-- Records never written are allowed to be read, as the constructor has it. -/
def keepingFile : DiskFile :=
  optionFile [("grvy/mpi_ocore/enable_ocore", 1), ("grvy/mpi_ocore/allow_empty_records", 1)]

/-- Overflow is disabled, and a pool has room for two records. -/
def noOverflowFile : DiskFile :=
  optionFile [("grvy/mpi_ocore/enable_ocore", 1), ("grvy/mpi_ocore/use_disk_overflow", 0),
    ("grvy/mpi_ocore/max_pool_size_in_mbs", 1), ("grvy/mpi_ocore/blocksize", 65536)]

/-- Ocore is enabled, and nothing else is said. -/
def plainFile : DiskFile := optionFile [("grvy/mpi_ocore/enable_ocore", 1)]

/-- Two workers and one Ocore task. -/
def twoWorkers : Job ℕ where
  startingRank := 2
  numOcoreTasks := 1
  startingRank_pos := by decide
  numOcoreTasks_pos := by decide
  allowEmptyRecords := false
  dumpStats := false
  mpiInitializedByOcore := true
  zero := 0
  program _ := []

/-- All ranks share the options of a file that keeps the two defaults. -/
theorem keepingFile_shared :
    ∃ options, initializeOptions (some keepingFile) (fun _ => false) = .ok options ∧
      OptionsShared twoWorkers options dumpQueue 0 := by
  obtain ⟨options, hrun, -⟩ := exists_ok_of_any (p := fun _ => true)
    (x := initializeOptions (some keepingFile) (fun _ => false)) (by decide +kernel)
  refine ⟨options, hrun, (options_shared_iff hrun twoWorkers dumpQueue 0).mpr ?_⟩
  refine ⟨keepingFile, rfl, Or.inr (Or.inl ?_), ?_⟩
  · decide +kernel
  · decide +kernel

theorem noOverflowFile_dumps :
    ∃ options, initializeOptions (some noOverflowFile) (fun _ => false) = .ok options ∧
      (options 0).useDiskOverflow = false ∧ ¬NeverDumps (options 2).limits dumpQueue 0 := by
  obtain ⟨options, hrun, htest⟩ := exists_ok_of_any
    (x := initializeOptions (some noOverflowFile) (fun _ => false))
    (p := fun options => (options 0).useDiskOverflow = false ∧
      (Storage.run (options 2).limits dumpQueue
        [.storeData (0, 0) 10, .storeData (0, 1) 11, .storeData (0, 2) 12]
        (initStorage (options 2).limits 0)).toOption.any
          (fun result => result.2.overflowTriggered) = true) (by decide +kernel)
  obtain ⟨hoff, hdump⟩ := of_decide_eq_true htest
  refine ⟨options, hrun, hoff, fun hnever => ?_⟩
  obtain ⟨⟨answers, s⟩, hstore, htriggered⟩ := exists_ok_of_any hdump
  rw [(hnever _ answers s hstore).1] at htriggered
  cases htriggered

theorem plainFile_reads_zeros :
    ∃ options, initializeOptions (some plainFile) (fun _ => false) = .ok options ∧
      (options 0).allowEmptyRecords = false ∧
        ¬EmptyReadsAbort (twoWorkers.withOptions options) 1 := by
  obtain ⟨options, hrun, htest⟩ := exists_ok_of_any
    (x := initializeOptions (some plainFile) (fun _ => false))
    (p := fun options => (options 0).allowEmptyRecords = false ∧
      (Session.runAll (twoWorkers.withOptions options) 1 [.read 7] .new).isSome = true)
    (by decide +kernel)
  obtain ⟨hoff, hread⟩ := of_decide_eq_true htest
  refine ⟨options, hrun, hoff, fun haborts => ?_⟩
  rw [← List.nil_append [Call.read 7], haborts [] 7 (by simp)] at hread
  cases hread

/-- The Ocore task overflows to disk although the file disables it, and a worker
other than the master reads zeros although the file does not allow it. -/
theorem options_not_shared :
    (∃ options, initializeOptions (some noOverflowFile) (fun _ => false) = .ok options ∧
      ¬OptionsShared twoWorkers options dumpQueue 0) ∧
    ∃ options, initializeOptions (some plainFile) (fun _ => false) = .ok options ∧
      ¬OptionsShared twoWorkers options dumpQueue 0 := by
  obtain ⟨options, hrun, hoff, hdumps⟩ := noOverflowFile_dumps
  obtain ⟨options', hrun', hoff', hreads⟩ := plainFile_reads_zeros
  refine ⟨⟨options, hrun, fun hshared => hdumps ?_⟩, options', hrun', fun hshared => hreads ?_⟩
  · exact hshared.overflow hoff 2 (by decide) (by decide)
  · exact hshared.empty hoff' 1 (by decide)

end Grvy.Ocore
