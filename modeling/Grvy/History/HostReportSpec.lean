import Grvy.History.HostReport

/-!
The report of a machine in closed form: which experiments are printed, and what the
header of an experiment and the row of a sample consist of, whatever the order of the
samples.
-/

namespace Grvy.History

open Std (TreeMap TreeSet)
open Grvy.Lib

variable {F : Type} {data : List (Sample F)} {names : List String} {name ename : String}

/-! ### The experiments -/

theorem nodup_experiments (data : List (Sample F)) : (experiments data).Nodup := by
  have hkeys : experiments data =
      (data.foldl (fun names sample => names.insert sample.experiment)
        (∅ : TreeSet String)).inner.keys := rfl
  rw [hkeys]
  exact TreeMap.nodup_keys

section Experiments

variable [LT F] [DecidableLT F] [Top F] [Bot F] [Zero F] {options : PrintOptions}
  {acc : Accumulated F} {entries : List (Sample F × ℕ)}

theorem mem_statistics_foldl :
    name ∈ (entries.foldl (accumulate options) acc).statistics ↔
      name ∈ acc.statistics ∨ ∃ entry ∈ entries, entry.1.experiment = name := by
  induction entries generalizing acc with
  | nil => simp
  | cons entry entries ih =>
      rw [List.foldl_cons, ih, accumulate, TreeMap.mem_insert, Std.compare_eq_iff_eq]
      simp only [List.mem_cons, exists_eq_or_imp]
      tauto

/-- Statistics are kept of the experiments of the samples. -/
theorem keys_statistics (options : PrintOptions) (data : List (Sample F)) :
    (accumulateAll options data).statistics.keys = experiments data := by
  have hkeys : experiments data =
      (data.foldl (fun names sample => names.insert sample.experiment)
        (∅ : TreeSet String)).inner.keys := rfl
  rw [hkeys]
  apply keys_congr
  intro name
  have hsamples : (∃ entry ∈ data.zipIdx, entry.1.experiment = name) ↔
      ∃ sample ∈ data, sample.experiment = name := by
    constructor
    · rintro ⟨entry, hentry, hname⟩
      exact ⟨entry.1, List.fst_mem_of_mem_zipIdx hentry, hname⟩
    · rintro ⟨sample, hsample, hname⟩
      obtain ⟨i, hi⟩ := List.mem_iff_getElem?.mp hsample
      exact ⟨(sample, i), List.mem_zipIdx_iff_getElem?.mpr hi, hname⟩
  have hmem : name ∈ experiments data ↔ ∃ sample ∈ data, sample.experiment = name :=
    mem_experiments
  rw [hkeys, TreeMap.mem_keys] at hmem
  rw [hmem, accumulateAll, mem_statistics_foldl, hsamples, Accumulated.start]
  simp

end Experiments

/-! ### The names of subtimers -/

section Names

variable [Zero F]

theorem mem_foldl_collect (subtimers : List (SubTimer F)) (m : TreeMap String F) :
    name ∈ subtimers.foldl (fun names subtimer =>
        if names.contains subtimer.timerName then names
        else names.insert subtimer.timerName 0) m ↔
      name ∈ m ∨ ∃ subtimer ∈ subtimers, subtimer.timerName = name := by
  induction subtimers generalizing m with
  | nil => simp
  | cons subtimer subtimers ih =>
      rw [List.foldl_cons, ih]
      simp only [List.mem_cons, exists_eq_or_imp]
      split
      · rename_i hold
        rw [TreeMap.contains_iff_mem] at hold
        constructor
        · exact fun hmem => hmem.imp_right Or.inr
        · rintro (hmem | rfl | hmem)
          · exact Or.inl hmem
          · exact Or.inl hold
          · exact Or.inr hmem
      · rw [TreeMap.mem_insert, Std.compare_eq_iff_eq]
        tauto

/-- All names of subtimers are collected. -/
theorem mem_collectNames (data : List (Sample F)) (m : TreeMap String F) :
    name ∈ collectNames data m ↔
      name ∈ m ∨ ∃ sample ∈ data, ∃ subtimer ∈ sample.subtimers, subtimer.timerName = name := by
  rw [collectNames]
  induction data generalizing m with
  | nil => simp
  | cons sample data ih =>
      rw [List.foldl_cons, ih, mem_foldl_collect]
      simp only [List.mem_cons, exists_eq_or_imp]
      exact or_assoc

/-- The names of the columns, in order. -/
def columnNames (data : List (Sample F)) : List String := (collectNames data ∅).keys

theorem mem_columnNames :
    name ∈ columnNames data ↔
      ∃ sample ∈ data, ∃ subtimer ∈ sample.subtimers, subtimer.timerName = name := by
  rw [columnNames, TreeMap.mem_keys, mem_collectNames]
  simp

/-- Each name is there once, and they are sorted. -/
theorem columnNames_sorted (data : List (Sample F)) :
    (columnNames data).Pairwise fun a b => compare a b = .lt :=
  TreeMap.ordered_keys

end Names

/-! ### The loop over the experiments -/

/-- The width of the index column. -/
def indexWidth (data : List (Sample F)) : ℕ := max 5 (numDigitsPositive data.length)

theorem indexWidth_eq (data : List (Sample F)) :
    (if numDigitsPositive data.length < 5 then 5 else numDigitsPositive data.length) =
      indexWidth data := by
  rw [indexWidth, max_def]
  split <;> split <;> omega

theorem max_eight (width : ℤ) : (if width < 8 then 8 else width) = max 8 width := by
  rw [max_def]
  split <;> split <;> omega

theorem map_max_seven (width : Option ℤ) :
    (width.map (max 7)).map (max 7) = width.map (max 7) := by
  rw [Option.map_map]
  congr 1
  funext width
  exact max_eq_right (le_max_left _ _)

section Headers

variable [Zero F] {options : PrintOptions} {acc : Accumulated F} {p : Printing F}

/-- The header of an experiment, by the widths that have been accumulated. -/
def headerOf (options : PrintOptions) (data : List (Sample F)) (revisionWidth : ℤ)
    (commentWidth : Option ℤ) (stats : ExperimentStats F) : Header F where
  stats := stats
  indexWidth := indexWidth data
  revisionWidth := max 8 revisionWidth
  subtimers := if options.outputSubtimerRaw then some ((columnNames data).map column) else none
  comment :=
    if options.outputComments then
      (commentWidth.map (max 7)).map fun width => printPadded width "Comment"
    else none
  environment := options.outputPrintenv

@[simp] theorem writeHeader_stdout (stats : ExperimentStats F) :
    (writeHeader options data stats p).stdout = p.stdout := rfl

theorem stdout_foldl (options : PrintOptions) (data : List (Sample F)) (acc : Accumulated F)
    (names : List String) (p : Printing F) :
    (names.foldl (printExperiment options data acc) p).stdout =
      p.stdout ++ if options.outputStdout then names.map (experimentStats data acc) else [] := by
  induction names generalizing p with
  | nil => simp
  | cons ename names ih =>
      have hstep : (printExperiment options data acc p ename).stdout =
          p.stdout ++ if options.outputStdout then [experimentStats data acc ename] else [] := by
        cases hout : options.outputStdout <;> simp [printExperiment, hout, apply_ite]
      rw [List.foldl_cons, ih, hstep, List.append_assoc]
      congr 1
      split <;> rfl

/-- Without files there are no headers. -/
theorem headers_foldl_of_not_dumpFiles (hdump : options.dumpFiles = false) (p : Printing F) :
    (names.foldl (printExperiment options data acc) p).headers = p.headers := by
  induction names generalizing p with
  | nil => rfl
  | cons ename names ih =>
      rw [List.foldl_cons, ih, printExperiment]
      simp only [hdump, Bool.false_eq_true, if_false]
      split <;> rfl

/-- What the loop has when it is done with some experiments. -/
structure Printed (options : PrintOptions) (data : List (Sample F)) (acc : Accumulated F)
    (names : List String) (p p' : Printing F) : Prop where
  headers : p'.headers = p.headers ++ names.map fun ename =>
    headerOf options data p.maxRevisionWidth p.maxCommentWidth (experimentStats data acc ename)
  indexWidth : names ≠ [] → p'.maxIndexWidth = indexWidth data
  revisionWidth : names ≠ [] → p'.maxRevisionWidth = max 8 p.maxRevisionWidth
  commentWidth : names ≠ [] → options.outputComments = true →
    p'.maxCommentWidth = p.maxCommentWidth.map (max 7)
  aggregate : ∀ ename, p'.aggregateSubtimers[ename]? =
    if options.outputSubtimerRaw = true ∧ ename ∈ names then some (collectNames data ∅)
    else p.aggregateSubtimers[ename]?

/-- Widening the columns again changes nothing. -/
theorem headerOf_widened (stats : ExperimentStats F) {commentWidth commentWidth' : Option ℤ}
    (hcomment : options.outputComments = true → commentWidth' = commentWidth.map (max 7))
    (revisionWidth : ℤ) :
    headerOf options data (max 8 revisionWidth) commentWidth' stats =
      headerOf options data revisionWidth commentWidth stats := by
  have hrevision : max 8 (max 8 revisionWidth) = max 8 revisionWidth :=
    max_eq_right (le_max_left _ _)
  have hwidth : options.outputComments = true →
      commentWidth'.map (max 7) = commentWidth.map (max 7) := by
    intro hcomments
    rw [hcomment hcomments, map_max_seven]
  rw [headerOf, hrevision, headerOf]
  cases hcomments : options.outputComments with
  | false => rfl
  | true => rw [hwidth hcomments]

/-- The names of an experiment the loop comes to have not been collected yet. -/
theorem collectNames_fresh (hfresh : p.aggregateSubtimers[ename]? = none) :
    collectNames data (p.aggregateSubtimers.getD ename ∅) = collectNames data ∅ := by
  rw [TreeMap.getD_eq_getD_getElem?, hfresh]
  rfl

theorem writeHeader_printed {stats : ExperimentStats F}
    (hfresh : p.aggregateSubtimers[stats.experiment]? = none) :
    (writeHeader options data stats p).headers =
      p.headers ++ [headerOf options data p.maxRevisionWidth p.maxCommentWidth stats] := by
  simp only [writeHeader, collectNames_fresh hfresh, max_eight, indexWidth_eq, headerOf,
    columnNames]
  congr 3
  split <;> rfl

/-- One experiment, written to its file. -/
theorem printExperiment_printed (hdump : options.dumpFiles = true)
    (hfresh : p.aggregateSubtimers[ename]? = none) :
    Printed options data acc [ename] p (printExperiment options data acc p ename) := by
  obtain ⟨out, hprint⟩ : ∃ out, printExperiment options data acc p ename =
      writeHeader options data (experimentStats data acc ename) { p with stdout := out } := by
    rw [printExperiment, if_pos hdump]
    split
    · exact ⟨_, rfl⟩
    · exact ⟨p.stdout, rfl⟩
  rw [hprint]
  refine ⟨writeHeader_printed hfresh, fun _ => indexWidth_eq data, fun _ => max_eight _,
    fun _ hcomments => ?_, fun ename' => ?_⟩
  · change (if options.outputComments = true then _ else _) = _
    rw [if_pos hcomments]
  · change (if options.outputSubtimerRaw = true then p.aggregateSubtimers.insert ename
      (collectNames data (p.aggregateSubtimers.getD ename ∅)) else p.aggregateSubtimers)[ename']? =
        _
    rw [collectNames_fresh hfresh]
    cases options.outputSubtimerRaw with
    | false => simp
    | true =>
        rw [if_pos rfl, TreeMap.getElem?_insert]
        simp only [Std.compare_eq_iff_eq, List.mem_singleton, true_and, eq_comm (a := ename)]

theorem printExperiments_printed (hdump : options.dumpFiles = true) (hnodup : names.Nodup)
    (hfresh : ∀ ename ∈ names, p.aggregateSubtimers[ename]? = none) :
    Printed options data acc names p (names.foldl (printExperiment options data acc) p) := by
  induction names generalizing p with
  | nil => exact ⟨by simp, fun hne => absurd rfl hne, fun hne => absurd rfl hne,
      fun hne => absurd rfl hne, by simp⟩
  | cons ename names ih =>
      obtain ⟨hnotMem, hnodup⟩ := List.nodup_cons.mp hnodup
      obtain ⟨hhere, hthere⟩ := List.forall_mem_cons.mp hfresh
      have step : Printed options data acc [ename] p (printExperiment options data acc p ename) :=
        printExperiment_printed hdump hhere
      have hrevision := step.revisionWidth (List.cons_ne_nil _ _)
      have hcomment := step.commentWidth (List.cons_ne_nil _ _)
      have rest := ih (p := printExperiment options data acc p ename) hnodup (by
        intro ename' hmem
        rw [step.aggregate, if_neg, hthere ename' hmem]
        rintro ⟨-, hsame⟩
        exact hnotMem (List.mem_singleton.mp hsame ▸ hmem))
      have hheaders : (names.map fun ename' => headerOf options data
          (printExperiment options data acc p ename).maxRevisionWidth
          (printExperiment options data acc p ename).maxCommentWidth
          (experimentStats data acc ename')) =
          names.map fun ename' => headerOf options data p.maxRevisionWidth p.maxCommentWidth
            (experimentStats data acc ename') := by
        rw [hrevision]
        exact List.map_congr_left fun ename' _ => headerOf_widened _ hcomment _
      refine ⟨?_, fun _ => ?_, fun _ => ?_, fun _ hcomments => ?_, fun ename' => ?_⟩
      · rw [List.foldl_cons, rest.headers, hheaders, step.headers]
        simp
      · cases names with
        | nil => exact step.indexWidth (List.cons_ne_nil _ _)
        | cons _ _ => exact rest.indexWidth (List.cons_ne_nil _ _)
      · cases names with
        | nil => exact hrevision
        | cons _ _ =>
            refine (rest.revisionWidth (List.cons_ne_nil _ _)).trans ?_
            rw [hrevision]
            exact max_eq_right (le_max_left _ _)
      · cases names with
        | nil => exact hcomment hcomments
        | cons _ _ =>
            refine (rest.commentWidth (List.cons_ne_nil _ _) hcomments).trans ?_
            rw [hcomment hcomments, map_max_seven]
      · rw [List.foldl_cons, rest.aggregate, step.aggregate]
        simp only [List.mem_cons, List.not_mem_nil, or_false]
        by_cases hraw : options.outputSubtimerRaw = true
        · by_cases hsame : ename' = ename
          · simp [hraw, hsame]
          · simp [hraw, hsame]
        · simp [hraw]

end Headers

/-! ### The loop over the samples -/

section Lines

variable [Zero F] {options : PrintOptions} {p : Printing F} {row : Row F} {lines : List (Row F)}
  {m : TreeMap String F} {sample : Sample F}
  {aggregate : TreeMap String (TreeMap String F)}

/-- The measurement of a subtimer, the last one if there are several. -/
def measured (sample : Sample F) (name : String) : F :=
  ((sample.subtimers.filter fun subtimer => subtimer.timerName = name).getLast?.map
    SubTimer.measurement).getD 0

omit [Zero F] in
theorem getElem?_cacheSubtimers (sample : Sample F) (m : TreeMap String F) (name : String) :
    (cacheSubtimers sample m)[name]? =
      ((sample.subtimers.filter fun subtimer => subtimer.timerName = name).getLast?.map
        fun subtimer => some subtimer.measurement).getD m[name]? := by
  rw [cacheSubtimers, ← foldl_overwrite]
  refine foldl_keyed (fun (m : TreeMap String F) name => m[name]?) SubTimer.timerName ?_ ?_
    sample.subtimers m name
  · intro m subtimer
    exact TreeMap.getElem?_insert_self
  · intro m subtimer name hne
    exact getElem?_insert_of_ne hne

/-- The map is reset and filled with the measurements of a sample. Their names are in it
already. -/
theorem getElem?_cached (hname : name ∈ m) :
    (cacheSubtimers sample (setMapConstantValue m 0))[name]? = some (measured sample name) := by
  have hreset : (setMapConstantValue m (0 : F))[name]? = some 0 := by
    rw [TreeMap.mem_iff_isSome_getElem?, Option.isSome_iff_exists] at hname
    obtain ⟨v, hv⟩ := hname
    rw [setMapConstantValue, TreeMap.getElem?_map, hv]
    rfl
  rw [getElem?_cacheSubtimers, hreset, measured]
  cases (sample.subtimers.filter fun subtimer => subtimer.timerName = name).getLast? <;> rfl

theorem mem_cached (hnames : ∀ subtimer ∈ sample.subtimers, subtimer.timerName ∈ m) :
    name ∈ cacheSubtimers sample (setMapConstantValue m 0) ↔ name ∈ m := by
  constructor
  · intro hname
    rw [TreeMap.mem_iff_isSome_getElem?, getElem?_cacheSubtimers] at hname
    cases hlast : (sample.subtimers.filter fun subtimer =>
        subtimer.timerName = name).getLast? with
    | none =>
        rw [hlast, Option.map_none, Option.getD_none, setMapConstantValue, TreeMap.getElem?_map,
          Option.isSome_map] at hname
        exact TreeMap.mem_iff_isSome_getElem?.mpr hname
    | some subtimer =>
        obtain ⟨hmem, hsame⟩ := List.mem_filter.mp (List.mem_of_getLast? hlast)
        exact of_decide_eq_true hsame ▸ hnames subtimer hmem
  · intro hname
    rw [TreeMap.mem_iff_isSome_getElem?, getElem?_cached hname]
    rfl

/-- The values of a row, in the order of the names. -/
theorem toList_cached (hnames : ∀ subtimer ∈ sample.subtimers, subtimer.timerName ∈ m) :
    (cacheSubtimers sample (setMapConstantValue m 0)).toList =
      m.keys.map fun name => (name, measured sample name) := by
  have hkeys : (cacheSubtimers sample (setMapConstantValue m 0)).keys = m.keys :=
    keys_congr fun name => mem_cached hnames
  rw [← hkeys, ← TreeMap.map_fst_toList_eq_keys, List.map_map]
  refine (List.map_id _).symm.trans (List.map_congr_left fun e he => ?_)
  have hvalue := TreeMap.mem_toList_iff_getElem?_eq_some.mp he
  have hname : e.1 ∈ m := by
    rw [← mem_cached hnames, TreeMap.mem_iff_isSome_getElem?, hvalue]
    rfl
  rw [getElem?_cached hname, Option.some.injEq] at hvalue
  exact Prod.ext rfl hvalue.symm

/-- The row of a sample, by the widths of the headers. -/
def lineOf (options : PrintOptions) (data : List (Sample F)) (p : Printing F) (row : Row F) :
    Line F :=
  { row with
    indexWidth := p.maxIndexWidth
    revisionWidth := p.maxRevisionWidth
    subtimers :=
      if options.outputSubtimerRaw then
        some ((columnNames data).map fun name =>
          { width := columnWidth name, value := measured row.sample name })
      else none
    comment :=
      if options.outputComments then p.maxCommentWidth.map fun width =>
        commentField width row.sample.userComment
      else none
    environment := if options.outputPrintenv then row.sample.envVariables else [] }

/-- The maps have the names of the columns, whatever values they have. -/
def Aligned (data : List (Sample F)) (aggregate : TreeMap String (TreeMap String F)) : Prop :=
  ∀ sample ∈ data, ∀ name, name ∈ aggregate.getD sample.experiment ∅ ↔ name ∈ columnNames data

theorem Aligned.keys_eq (aligned : Aligned data aggregate) (hsample : sample ∈ data) :
    (aggregate.getD sample.experiment ∅).keys = columnNames data :=
  keys_congr fun name => (aligned sample hsample name).trans TreeMap.mem_keys

theorem Aligned.mem_of_subtimer (aligned : Aligned data aggregate) (hsample : sample ∈ data) :
    ∀ subtimer ∈ sample.subtimers,
      subtimer.timerName ∈ aggregate.getD sample.experiment ∅ := by
  intro subtimer hsubtimer
  rw [aligned sample hsample, mem_columnNames]
  exact ⟨sample, hsample, subtimer, hsubtimer, rfl⟩

/-- A row leaves the names as they are. -/
theorem Aligned.cached (aligned : Aligned data aggregate) (hsample : sample ∈ data) :
    Aligned data (aggregate.insert sample.experiment
      (cacheSubtimers sample
        (setMapConstantValue (aggregate.getD sample.experiment ∅) 0))) := by
  intro sample' hsample' name
  rw [TreeMap.getD_insert]
  split
  · rw [mem_cached (aligned.mem_of_subtimer hsample)]
    exact aligned sample hsample name
  · exact aligned sample' hsample' name

/-- Every row is that of its sample alone. -/
theorem printSamples_eq (hdata : ∀ row ∈ lines, row.sample ∈ data)
    (aligned : options.outputSubtimerRaw = true → Aligned data aggregate) :
    printSamples options p lines aggregate = lines.map (lineOf options data p) := by
  induction lines generalizing aggregate with
  | nil => rfl
  | cons row lines ih =>
      obtain ⟨hsample, hrest⟩ := List.forall_mem_cons.mp hdata
      have hline : (printSample options p aggregate row).1 = lineOf options data p row := by
        rw [printSample, lineOf]
        split
        · rename_i hraw
          rw [toList_cached ((aligned hraw).mem_of_subtimer hsample),
            (aligned hraw).keys_eq hsample, List.map_map]
          rfl
        · rfl
      have haligned : options.outputSubtimerRaw = true →
          Aligned data (printSample options p aggregate row).2 := by
        intro hraw
        rw [printSample, hraw]
        exact (aligned hraw).cached hsample
      change (printSample options p aggregate row).1 ::
        printSamples options p lines (printSample options p aggregate row).2 = _
      rw [hline, ih hrest haligned, List.map_cons]

end Lines

/-! ### The report -/

section Report

variable [LT F] [DecidableLT F] [Top F] [Bot F] [Zero F] {options : PrintOptions}

theorem stdout_printHost (options : PrintOptions) (data : List (Sample F)) :
    (printHost options data).stdout = if options.outputStdout then
      (experiments data).map (experimentStats data (accumulateAll options data)) else [] := by
  rw [printHost, printExperiments, stdout_foldl, keys_statistics]
  rfl

theorem printed_experiments (hdump : options.dumpFiles = true) (data : List (Sample F)) :
    Printed options data (accumulateAll options data) (experiments data)
      (.start (accumulateAll options data)) (printExperiments options data) := by
  rw [printExperiments, keys_statistics]
  exact printExperiments_printed hdump (nodup_experiments data) fun _ _ => rfl

/-- One header for each experiment. -/
theorem headers_printHost (options : PrintOptions) (data : List (Sample F)) :
    (printHost options data).headers = if options.dumpFiles then
      (experiments data).map fun ename =>
        headerOf options data (accumulateAll options data).maxRevisionWidth
          (accumulateAll options data).maxCommentWidth
          (experimentStats data (accumulateAll options data) ename) else [] := by
  rw [printHost]
  cases hdump : options.dumpFiles with
  | false => exact headers_foldl_of_not_dumpFiles hdump _
  | true => exact (printed_experiments hdump data).headers

/-- The names of the columns have been collected for each experiment. -/
theorem aligned_printExperiments (hdump : options.dumpFiles = true)
    (hraw : options.outputSubtimerRaw = true) (data : List (Sample F)) :
    Aligned data (printExperiments options data).aggregateSubtimers := by
  intro sample hsample name
  have hmem : sample.experiment ∈ experiments data :=
    mem_experiments.mpr ⟨sample, hsample, rfl⟩
  rw [TreeMap.getD_eq_getD_getElem?, (printed_experiments hdump data).aggregate,
    if_pos ⟨hraw, hmem⟩, Option.getD_some, columnNames, TreeMap.mem_keys]

/-- One row for each sample. -/
theorem lines_printHost (options : PrintOptions) (data : List (Sample F)) :
    (printHost options data).lines =
      if options.outputTotaltimerRaw && options.dumpFiles then
        (rows data).map (lineOf options data (printExperiments options data)) else [] := by
  rw [printHost]
  split
  · rename_i hboth
    have hdump := (Bool.and_eq_true_iff.mp hboth).2
    exact printSamples_eq (fun row hrow => mem_rows hrow) fun hraw =>
      aligned_printExperiments hdump hraw data
  · rfl

/-- The rows are those that are written to the files. -/
theorem map_toRow_lines (h : (options.outputTotaltimerRaw && options.dumpFiles) = true)
    (data : List (Sample F)) : (printHost options data).lines.map Line.toRow = rows data := by
  rw [lines_printHost, if_pos h, List.map_map]
  exact List.map_id _

end Report

end Grvy.History
