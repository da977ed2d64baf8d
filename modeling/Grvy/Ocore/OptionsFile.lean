import Grvy.Lookup.FileText
import Grvy.Ocore.Options

/-!
The options of Ocore from the text of the input file.

What a line of the file assigns last to an option, the master runs with. The other ranks run
with the same values but for the two options without a broadcast.
-/

namespace Grvy.Ocore

open Grvy.Lib Grvy.Lookup Grvy.GetPot

section Text

variable (d : Doubles) (scan : String → Option ℚ) (scanUnsigned : String → Option ℕ)

/-- The file with this text, as `Open` finds it. GetPot reads it if there is no carriage return
in it. -/
def diskText (fuel : ℕ) (filename text : CText) : Option DiskFile :=
  if '\r' ∈ text then
    some
      { dosNewline := true
        contents := ofObject scan scanUnsigned (Object.initial filename) }
  else
    (construct d fuel filename (readInStream text)).map fun o =>
      { dosNewline := false
        contents := ofObject scan scanUnsigned o }

/-- The value of an option with a registered default. A value that means "no default" is taken
for a missing one. -/
def optionValue (lines : List Line) (k : Kind) (var : String) (registered : k.type) : k.type :=
  match assigned scan lines k var with
  | none => registered
  | some v => if v = k.getDefault then registered else v

/-- What the lines of a file make of the options that a constructor has set. -/
def optionsOf (lines : List Line) (o : Options) : Options where
  useDiskOverflow :=
    isOn (optionValue scan lines .int "grvy/mpi_ocore/use_disk_overflow" (1 : ℤ))
  allowEmptyRecords :=
    isOn (optionValue scan lines .int "grvy/mpi_ocore/allow_empty_records" (0 : ℤ))
  dumpWatermarkRatio :=
    optionValue scan lines .double "grvy/mpi_ocore/watermark_ratio" o.dumpWatermarkRatio
  maxPoolsizeMBs :=
    optionValue scan lines .int "grvy/mpi_ocore/max_pool_size_in_mbs" o.maxPoolsizeMBs
  maxMapsizeMBs :=
    optionValue scan lines .int "grvy/mpi_ocore/max_map_size_in_mbs" o.maxMapsizeMBs
  blocksize := optionValue scan lines .int "grvy/mpi_ocore/blocksize" o.blocksize
  dumpStats :=
    (assignedBool scanUnsigned lines "grvy/mpi_ocore/dump_raw_statistics").getD true
  statsfile :=
    if (assignedBool scanUnsigned lines "grvy/mpi_ocore/dump_raw_statistics").getD true then
      optionValue scan lines .string "grvy/mpi_ocore/statsfile" "grvy_ocore_stats.dat"
    else o.statsfile

/-- What another rank holds. -/
def Options.received (o : Options) : Options :=
  { o with useDiskOverflow := true, allowEmptyRecords := true }

/-- How Ocore starts with a file of these lines. -/
def startedWith (lines : List Line) (dumpStats : ℕ → Bool) :
    Except NotStarted (ℕ → Options) :=
  let o := optionsOf scan scanUnsigned lines (Options.new (dumpStats 0))
  if '\r' ∈ fileText lines ∨ lines.flatMap Line.arguments = [] ∨
      optionValue scan lines .int "grvy/mpi_ocore/enable_ocore" (0 : ℤ) ≠ (1 : ℤ) then
    .error .disabled
  else if ¬o.Sane then .error .aborted
  else .ok fun rank => if rank = 0 then o else o.received

variable {d scan scanUnsigned} {o : Object} {lines : List Line}

theorem valueOr_eq
    (hvalue : ∀ k var, (ofObject scan scanUnsigned o).value k var = assigned scan lines k var)
    (k : Kind) (var : String) (registered : k.type) :
    (ofObject scan scanUnsigned o).valueOr k var registered =
      optionValue scan lines k var registered := by
  rw [GetPot.valueOr, GetPot.get, hvalue, Kind.cStr_getDefault, optionValue]
  cases assigned scan lines k var with
  | none => exact if_pos rfl
  | some v => rfl

theorem optionsIn_eq
    (hvalue : ∀ k var, (ofObject scan scanUnsigned o).value k var = assigned scan lines k var)
    (hbool : ∀ var,
      (ofObject scan scanUnsigned o).bool var = assignedBool scanUnsigned lines var)
    (options : Options) :
    optionsIn (ofObject scan scanUnsigned o) options =
      optionsOf scan scanUnsigned lines options := by
  simp only [optionsIn, optionsOf, valueOr_eq hvalue, GetPot.getBool, hbool]

/-- Ocore is enabled by a file that can be opened and has the value 1 for the option. -/
theorem readEnableOcore_some (f : DiskFile) :
    (readEnableOcore (some f)).1 =
      if f.dosNewline = true ∨ f.contents.size ≤ 1 then (0 : ℤ)
      else f.contents.valueOr .int "grvy/mpi_ocore/enable_ocore" (0 : ℤ) := by
  have hopening : Input.new.openFile (some f) =
      if f.dosNewline = true then (0, Input.new) else Input.new.attach f.contents := rfl
  by_cases hbad : f.dosNewline = true ∨ f.contents.size ≤ 1
  · have hcode : (Input.new.openFile (some f)).1 = 0 := by
      rw [hopening]
      rcases hbad with hdos | hsize
      · rw [if_pos hdos]
      · split
        · rfl
        · rw [Input.attach, if_pos hsize]
    rw [readEnableOcore, if_pos hbad]
    simp only [if_pos hcode]
  · rw [if_neg hbad]
    rw [not_or] at hbad
    rw [if_neg hbad.1, Input.attach, if_neg hbad.2] at hopening
    let iparse := (Input.new.openFile (some f)).2.registerVar .int
      "grvy/mpi_ocore/enable_ocore" (0 : ℤ)
    have hopen : iparse.opened = some f.contents := by
      rw [Input.opened_registerVar, hopening]
      rfl
    have hcode : (Input.new.openFile (some f)).1 ≠ 0 := by
      rw [hopening]
      exact one_ne_zero
    have hreg : iparse.getVar .int "grvy/mpi_ocore/enable_ocore" = some (0 : ℤ) :=
      Input.getVar_registerVar _
    rw [readEnableOcore]
    simp only [if_neg hcode]
    rw [Parse.read_eq hopen hreg]

/-- How Ocore starts with a file, in terms of what is read from it. -/
theorem initializeOptions_some (f : DiskFile) (dumpStats : ℕ → Bool) :
    initializeOptions (some f) dumpStats =
      if (readEnableOcore (some f)).1 ≠ 1 then .error .disabled
      else if ¬(optionsIn f.contents (Options.new (dumpStats 0))).Sane then .error .aborted
      else .ok (broadcast f.contents dumpStats) := by
  rw [initializeOptions]
  by_cases huse : (readEnableOcore (some f)).1 = 1
  · obtain ⟨f', hf', hopen⟩ := opened_of_readEnableOcore huse
    cases hf'
    obtain ⟨hoptions, hflag⟩ := readOptions_registered (o := Options.new (dumpStats 0)) 1 hopen
    simp only [huse, ne_eq, not_true_eq_false, if_false, hoptions, hflag, one_ne_zero, broadcast]
  · simp only [huse, ne_eq, not_false_eq_true, if_true]

/-- What the ranks hold once the master has read a file. -/
theorem broadcast_eq (ifile : Lookup.GetPot) (dumpStats : ℕ → Bool) :
    broadcast ifile dumpStats = fun rank =>
      if rank = 0 then optionsIn ifile (Options.new (dumpStats 0))
      else (optionsIn ifile (Options.new (dumpStats 0))).received := by
  funext rank
  by_cases hrank : rank = 0
  · simp [hrank]
  · rw [if_neg hrank, broadcast_of_ne hrank, broadcast_zero, cStr_statsfile]
    rfl

/-- **Starting Ocore.** How Ocore starts with a file is decided by what its lines assign last. -/
theorem initializeOptions_fileText (h : ∀ line ∈ lines, line.Ok) (filename : CText)
    (dumpStats : ℕ → Bool) :
    Settles (fun n => (diskText d scan scanUnsigned n filename (fileText lines)).map fun f =>
      initializeOptions (some f) dumpStats) (startedWith scan scanUnsigned lines dumpStats) := by
  by_cases hdos : '\r' ∈ fileText lines
  · simp only [diskText, if_pos hdos, Option.map_some]
    rw [settles_const_iff, initializeOptions_some, readEnableOcore_some, startedWith]
    simp [hdos]
  · obtain ⟨o, hsettles, hsize, hvalue, hbool⟩ := answers_fileText d scan scanUnsigned h filename
    simp only [diskText, if_neg hdos, Option.map_map]
    let f : DiskFile := { dosNewline := false, contents := ofObject scan scanUnsigned o }
    have hstart : initializeOptions (some f) dumpStats =
        startedWith scan scanUnsigned lines dumpStats := by
      rw [initializeOptions_some, readEnableOcore_some, broadcast_eq,
        optionsIn_eq hvalue hbool, valueOr_eq hvalue, hsize, startedWith]
      by_cases hnone : lines.flatMap Line.arguments = []
      · simp [hnone]
      · have hpos := List.length_pos_iff.mpr hnone
        have hmany : ¬(f.dosNewline = true ∨ (lines.flatMap Line.arguments).length + 1 ≤ 1) := by
          rintro (hf | hlength)
          · cases hf
          · omega
        rw [if_neg hmany]
        simp [hdos, hnone]
    rw [← hstart]
    exact hsettles.map fun o => initializeOptions
      (some { dosNewline := false, contents := ofObject scan scanUnsigned o }) dumpStats

end Text

/-- Overflow is disabled in the section of Ocore, and the size of a block is changed. -/
def smallBlocks : List Line :=
  [.label "grvy/mpi_ocore".toList, .assignment "enable_ocore".toList "1".toList,
    .assignment "use_disk_overflow".toList "0".toList,
    .assignment "blocksize".toList "4096".toList]

/-- The other ranks get the size of a block, and go on to overflow. -/
theorem smallBlocks_started :
    ∃ options, Settles (fun n =>
        (diskText wholeDoubles scanNumber scanSize n "input".toList (fileText smallBlocks)).map
          fun f => initializeOptions (some f) fun _ => false) (.ok options) ∧
      (options 0).blocksize = 4096 ∧ (options 0).useDiskOverflow = false ∧
      (options 1).blocksize = 4096 ∧ (options 1).useDiskOverflow = true := by
  have hok : ∀ line ∈ smallBlocks, line.Ok := by decide
  have hstarted : Settles (fun n =>
      (diskText wholeDoubles scanNumber scanSize n "input".toList (fileText smallBlocks)).map
        fun f => initializeOptions (some f) fun _ => false)
      (startedWith scanNumber scanSize smallBlocks fun _ => false) :=
    initializeOptions_fileText hok "input".toList fun _ => false
  obtain ⟨options, hoptions, htest⟩ := exists_ok_of_any
    (x := startedWith scanNumber scanSize smallBlocks fun _ => false)
    (p := fun options => (options 0).blocksize = 4096 ∧ (options 0).useDiskOverflow = false ∧
      (options 1).blocksize = 4096 ∧ (options 1).useDiskOverflow = true) (by decide +kernel)
  exact ⟨options, hoptions ▸ hstarted, of_decide_eq_true htest⟩

end Grvy.Ocore
