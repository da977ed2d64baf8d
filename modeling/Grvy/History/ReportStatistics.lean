import Mathlib.Order.BoundedOrder.Basic
import Grvy.History.ReportColumns

/-!
The statistics in the report of a machine.

Minima, maxima and their positions are kept in maps by experiment, while the samples of
all experiments come mixed. At each experiment the loop does what it would do for the
samples of this experiment alone, so the values and the times printed beside them are
those of its own samples.
-/

namespace Grvy.History

open Std (TreeMap)
open Grvy.Lib

variable {F : Type}

/-! ### One map of extremes -/

section Track

variable [Zero F] (better : F → F → Prop) [DecidableRel better] (sentinel : F)

/-- One sample in the map of an extreme. -/
def track (vals : TreeMap String (Minmax F)) (entry : Sample F × ℕ) :
    TreeMap String (Minmax F) :=
  check better entry.1.experiment entry.1.totalTime entry.2
    (if vals.contains entry.1.experiment then vals
      else setValue vals entry.1.experiment sentinel)

/-- The value and the position of a sample. -/
def minmaxOf (entry : Sample F × ℕ) : Minmax F where
  value := entry.1.totalTime
  index := entry.2

def byValue (a b : Minmax F) : Prop := better a.value b.value

instance : DecidableRel (byValue better) := fun a b =>
  inferInstanceAs (Decidable (better a.value b.value))

omit [Zero F] [DecidableRel better] in
instance [IsTrans F better] : IsTrans (Minmax F) (byValue better) where
  trans _ _ _ hab hbc := trans_of better hab hbc

omit [Zero F] [DecidableRel better] in
instance [Std.Irrefl better] : Std.Irrefl (byValue better) where
  irrefl _ := irrefl_of better _

variable {better sentinel} {vals : TreeMap String (Minmax F)} {entry : Sample F × ℕ}
  {entries : List (Sample F × ℕ)} {ename : String}

theorem getElem?_check_self {m : Minmax F} (hm : vals[ename]? = some m) (runtime : F) (i : ℕ) :
    (check better ename runtime i vals)[ename]? =
      some (improve (byValue better) m { value := runtime, index := i }) := by
  have hat : minmaxAt vals ename = m := by
    rw [minmaxAt, TreeMap.getD_eq_getD_getElem?, hm]
    rfl
  have hbetter : byValue better { value := runtime, index := i } m ↔ better runtime m.value :=
    Iff.rfl
  rw [check, hat, improve, ite_cond_congr (propext hbetter)]
  split
  · exact TreeMap.getElem?_insert_self
  · exact hm

theorem getElem?_check_of_ne {ename' : String} (hne : ename' ≠ ename) (runtime : F) (i : ℕ) :
    (check better ename runtime i vals)[ename']? = vals[ename']? := by
  rw [check]
  split
  · exact getElem?_insert_of_ne hne
  · rfl

/-- The entry that is checked: the old one, or the sentinel. -/
theorem getElem?_create (vals : TreeMap String (Minmax F)) (ename : String) (sentinel : F) :
    (if vals.contains ename then vals else setValue vals ename sentinel)[ename]? =
      some (vals[ename]?.getD { value := sentinel, index := 0 }) := by
  cases hold : vals[ename]? with
  | some m =>
      have hmem : vals.contains ename = true := by
        rw [TreeMap.contains_eq_isSome_getElem?, hold]
        rfl
      rw [if_pos hmem, hold]
      rfl
  | none =>
      have hmem : vals.contains ename = false := by
        rw [TreeMap.contains_eq_isSome_getElem?, hold]
        rfl
      rw [if_neg (ne_true_of_eq_false hmem), setValue, TreeMap.getElem?_insert_self, minmaxAt,
        TreeMap.getD_eq_getD_getElem?, hold]
      rfl

theorem getElem?_track_self :
    (track better sentinel vals entry)[entry.1.experiment]? =
      some (improve (byValue better)
        (vals[entry.1.experiment]?.getD { value := sentinel, index := 0 }) (minmaxOf entry)) :=
  getElem?_check_self (getElem?_create vals entry.1.experiment sentinel) _ _

theorem getElem?_track_of_ne (hne : ename ≠ entry.1.experiment) :
    (track better sentinel vals entry)[ename]? = vals[ename]? := by
  rw [track, getElem?_check_of_ne hne]
  split
  · rfl
  · exact getElem?_insert_of_ne hne

@[simp] theorem contains_track (better : F → F → Prop) [DecidableRel better] (sentinel : F)
    (vals : TreeMap String (Minmax F)) (entry : Sample F × ℕ) (ename : String) :
    (track better sentinel vals entry).contains ename =
      (ename == entry.1.experiment || vals.contains ename) := by
  rw [TreeMap.contains_eq_isSome_getElem?, TreeMap.contains_eq_isSome_getElem?]
  by_cases hname : ename = entry.1.experiment
  · rw [hname, getElem?_track_self]
    simp
  · rw [getElem?_track_of_ne hname]
    simp [hname]

omit [Zero F] in
/-- Once there is an entry, it is improved. -/
theorem foldl_improve_some (es : List (Sample F × ℕ)) (m : Minmax F) :
    es.foldl (fun best entry => some (improve (byValue better)
        (best.getD { value := sentinel, index := 0 }) (minmaxOf entry))) (some m) =
      some ((es.map minmaxOf).foldl (improve (byValue better)) m) := by
  induction es generalizing m with
  | nil => rfl
  | cons entry es ih => exact ih _

/-- At an experiment with samples, the map has the best of these. -/
theorem getElem?_foldl_track (hne : (entries.filter fun entry => entry.1.experiment = ename) ≠ []) :
    (entries.foldl (track better sentinel) ∅)[ename]? =
      some (((entries.filter fun entry => entry.1.experiment = ename).map minmaxOf).foldl
        (improve (byValue better)) { value := sentinel, index := 0 }) := by
  have hkeyed : (entries.foldl (track better sentinel) ∅)[ename]? =
      (entries.filter fun entry => entry.1.experiment = ename).foldl
        (fun best entry => some (improve (byValue better)
          (best.getD { value := sentinel, index := 0 }) (minmaxOf entry)))
        (∅ : TreeMap String (Minmax F))[ename]? := by
    refine foldl_keyed (fun (vals : TreeMap String (Minmax F)) ename => vals[ename]?)
      (fun entry : Sample F × ℕ => entry.1.experiment) ?_ ?_ entries ∅ ename
    · intro vals entry
      exact getElem?_track_self
    · intro vals entry ename hne
      exact getElem?_track_of_ne hne
  rw [hkeyed, TreeMap.getElem?_emptyc]
  cases hown : entries.filter fun entry => entry.1.experiment = ename with
  | nil => exact absurd hown hne
  | cons entry es => exact foldl_improve_some es _

/-- If all samples are better than the sentinel, the entry at an experiment is that of one
of its samples, and none is better. -/
theorem minmaxAt_foldl_track [IsTrans F better] [Std.Irrefl better]
    (hne : (entries.filter fun entry => entry.1.experiment = ename) ≠ [])
    (hsentinel : ∀ entry ∈ entries, better entry.1.totalTime sentinel) :
    ∃ best ∈ entries.filter fun entry => entry.1.experiment = ename,
      minmaxAt (entries.foldl (track better sentinel) ∅) ename = minmaxOf best ∧
        ∀ entry ∈ entries.filter fun entry => entry.1.experiment = ename,
          ¬better entry.1.totalTime best.1.totalTime := by
  let own := entries.filter fun entry => entry.1.experiment = ename
  have hstart : ∀ m ∈ own.map minmaxOf, byValue better m { value := sentinel, index := 0 } := by
    intro m hm
    obtain ⟨entry, hentry, rfl⟩ := List.mem_map.mp hm
    exact hsentinel entry (List.mem_of_mem_filter hentry)
  obtain ⟨hmem, hleast⟩ := foldl_improve_best (List.map_eq_nil_iff.not.mpr hne) hstart
  obtain ⟨best, hbest, heq⟩ := List.mem_map.mp hmem
  refine ⟨best, hbest, ?_, fun entry hentry => ?_⟩
  · rw [minmaxAt, TreeMap.getD_eq_getD_getElem?, getElem?_foldl_track hne, heq]
    rfl
  · rw [← heq] at hleast
    exact hleast _ (List.mem_map_of_mem hentry)

end Track

/-! ### The loop over the samples -/

section Accumulate

variable [LT F] [DecidableLT F] [Top F] [Bot F] [Zero F] {options : PrintOptions}
  {entries : List (Sample F × ℕ)} {acc : Accumulated F}

theorem maxVals_foldl (options : PrintOptions) (entries : List (Sample F × ℕ))
    (acc : Accumulated F) :
    (entries.foldl (accumulate options) acc).maxVals =
      entries.foldl (track (· > ·) ⊥) acc.maxVals := by
  induction entries generalizing acc with
  | nil => rfl
  | cons entry entries ih =>
      rw [List.foldl_cons, List.foldl_cons, ih]
      rfl

/-- The entries of both maps are created together. -/
theorem minVals_foldl (options : PrintOptions) (entries : List (Sample F × ℕ))
    (hkeys : ∀ ename, acc.maxVals.contains ename = acc.minVals.contains ename) :
    (entries.foldl (accumulate options) acc).minVals =
      entries.foldl (track (· < ·) ⊤) acc.minVals := by
  induction entries generalizing acc with
  | nil => rfl
  | cons entry entries ih =>
      have hmax : (accumulate options acc entry).maxVals =
          track (· > ·) ⊥ acc.maxVals entry := rfl
      have hmin : (accumulate options acc entry).minVals =
          track (· < ·) ⊤ acc.minVals entry := by
        rw [track, ← hkeys]
        rfl
      rw [List.foldl_cons, List.foldl_cons, ih, hmin]
      intro ename
      simp [hmax, hmin, hkeys]

theorem maxVals_accumulateAll (options : PrintOptions) (data : List (Sample F)) :
    (accumulateAll options data).maxVals = data.zipIdx.foldl (track (· > ·) ⊥) ∅ :=
  maxVals_foldl options _ _

theorem minVals_accumulateAll (options : PrintOptions) (data : List (Sample F)) :
    (accumulateAll options data).minVals = data.zipIdx.foldl (track (· < ·) ⊤) ∅ :=
  minVals_foldl options _ fun _ => rfl

/-- The run times of each experiment, in their order. -/
theorem statistics_foldl (options : PrintOptions) (entries : List (Sample F × ℕ))
    (acc : Accumulated F) (ename : String) :
    (entries.foldl (accumulate options) acc).statistics.getD ename [] =
      acc.statistics.getD ename [] ++
        (entries.filter fun entry => entry.1.experiment = ename).map
          fun entry => entry.1.totalTime := by
  have hkeyed : (entries.foldl (accumulate options) acc).statistics.getD ename [] =
      (entries.filter fun entry => entry.1.experiment = ename).foldl
        (fun runtimes entry => runtimes ++ [entry.1.totalTime])
        (acc.statistics.getD ename []) := by
    refine foldl_keyed (fun (acc : Accumulated F) ename => acc.statistics.getD ename [])
      (fun entry : Sample F × ℕ => entry.1.experiment) ?_ ?_ entries acc ename
    · intro acc entry
      exact TreeMap.getD_insert_self
    · intro acc entry ename hne
      rw [TreeMap.getD_eq_getD_getElem?, TreeMap.getD_eq_getD_getElem?]
      exact congrArg (Option.getD · []) (getElem?_insert_of_ne hne)
  rw [hkeyed, List.foldl_append_eq_append, ← List.flatMap_def, ← List.map_eq_flatMap]

end Accumulate

/-! ### The samples of an experiment -/

section Samples

variable {data : List (Sample F)} {sample : Sample F} {ename : String}

/-- The samples of an experiment. -/
def samplesOf (data : List (Sample F)) (ename : String) : List (Sample F) :=
  data.filter fun sample => sample.experiment = ename

theorem mem_samplesOf :
    sample ∈ samplesOf data ename ↔ sample ∈ data ∧ sample.experiment = ename := by
  rw [samplesOf, List.mem_filter, decide_eq_true_iff]

/-- They are numbered among all samples of the machine. -/
theorem map_fst_filter_zipIdx (data : List (Sample F)) (ename : String) :
    (data.zipIdx.filter fun entry => entry.1.experiment = ename).map Prod.fst =
      samplesOf data ename := by
  conv_rhs => rw [samplesOf, ← List.zipIdx_map_fst 0 data, List.filter_map]
  rfl

/-- The position in a tracked entry leads back to the sample. -/
theorem extreme_minmaxOf {entry : Sample F × ℕ} (h : entry ∈ data.zipIdx) :
    extreme data (minmaxOf entry) =
      { value := entry.1.totalTime, timestamp := some entry.1.timestamp } := by
  rw [extreme, minmaxOf, List.mem_zipIdx_iff_getElem?.mp h]
  rfl

variable [Zero F] {better : F → F → Prop} [DecidableRel better] {sentinel : F}

/-- The printed value is that of a sample of the experiment, and so is the time. -/
structure Attained (data : List (Sample F)) (ename : String) (better : F → F → Prop)
    (shown : Extreme F) : Prop where
  own : ∃ sample ∈ samplesOf data ename,
    shown.value = sample.totalTime ∧ shown.timestamp = some sample.timestamp
  best : ∀ sample ∈ samplesOf data ename, ¬better sample.totalTime shown.value

theorem attained_of_track [IsTrans F better] [Std.Irrefl better]
    (hsentinel : ∀ sample ∈ data, better sample.totalTime sentinel)
    (hsample : sample ∈ data) :
    Attained data sample.experiment better
      (extreme data (minmaxAt (data.zipIdx.foldl (track better sentinel) ∅)
        sample.experiment)) := by
  have hown := map_fst_filter_zipIdx data sample.experiment
  have hmem : sample ∈ samplesOf data sample.experiment := mem_samplesOf.mpr ⟨hsample, rfl⟩
  have hne : (data.zipIdx.filter fun entry => entry.1.experiment = sample.experiment) ≠ [] := by
    intro hnil
    rw [← hown, hnil] at hmem
    cases hmem
  have hstart : ∀ entry ∈ data.zipIdx, better entry.1.totalTime sentinel := fun entry hentry =>
    hsentinel _ (List.fst_mem_of_mem_zipIdx hentry)
  obtain ⟨best, hbest, hvals, hleast⟩ := minmaxAt_foldl_track hne hstart
  rw [hvals, extreme_minmaxOf (List.mem_of_mem_filter hbest)]
  refine ⟨⟨best.1, hown ▸ List.mem_map_of_mem hbest, rfl, rfl⟩, fun other hother => ?_⟩
  rw [← hown] at hother
  obtain ⟨entry, hentry, rfl⟩ := List.mem_map.mp hother
  exact hleast entry hentry

end Samples

/-! ### The statistics of the report -/

section Statistics

variable [LinearOrder F] [BoundedOrder F] [Zero F] {data : List (Sample F)}

/-- The count, the minimum and the maximum are those of the samples of the experiment. -/
structure Accurate (data : List (Sample F)) (stats : ExperimentStats F) : Prop where
  samples : stats.samples = (samplesOf data stats.experiment).length
  minTime : Attained data stats.experiment (· < ·) stats.minTime
  maxTime : Attained data stats.experiment (· > ·) stats.maxTime

theorem accurate_experimentStats (options : PrintOptions)
    (hfinite : ∀ sample ∈ data, ⊥ < sample.totalTime ∧ sample.totalTime < ⊤) {ename : String}
    (hname : ename ∈ experiments data) :
    Accurate data (experimentStats data (accumulateAll options data) ename) := by
  obtain ⟨sample, hsample, rfl⟩ := mem_experiments.mp hname
  refine ⟨?_, ?_, ?_⟩
  · change ((accumulateAll options data).statistics.getD _ []).length = _
    rw [accumulateAll, statistics_foldl, List.length_append, List.length_map,
      ← List.length_map (f := Prod.fst), map_fst_filter_zipIdx]
    simp [Accumulated.start, experimentStats]
  · rw [experimentStats, minVals_accumulateAll]
    exact attained_of_track (fun sample hsample => (hfinite sample hsample).2) hsample
  · rw [experimentStats, maxVals_accumulateAll]
    exact attained_of_track (fun sample hsample => (hfinite sample hsample).1) hsample

/-- **Statistics.** With finite run times, the statistics of each experiment are printed
where they are enabled, and they are accurate. -/
theorem statistics_accurate (options : PrintOptions)
    (hfinite : ∀ sample ∈ data, ⊥ < sample.totalTime ∧ sample.totalTime < ⊤) :
    ((printHost options data).stdout.map ExperimentStats.experiment =
        if options.outputStdout then experiments data else []) ∧
      ((printHost options data).headers.map (fun header => header.stats.experiment) =
        if options.dumpFiles then experiments data else []) ∧
      (∀ stats ∈ (printHost options data).stdout, Accurate data stats) ∧
      ∀ header ∈ (printHost options data).headers, Accurate data header.stats := by
  rw [stdout_printHost, headers_printHost]
  refine ⟨?_, ?_, fun stats hstats => ?_, fun header hheader => ?_⟩
  · split
    · rw [List.map_map]
      exact List.map_id _
    · rfl
  · split
    · rw [List.map_map]
      exact List.map_id _
    · rfl
  · split at hstats
    · obtain ⟨ename, hname, rfl⟩ := List.mem_map.mp hstats
      exact accurate_experimentStats options hfinite hname
    · cases hstats
  · split at hheader
    · obtain ⟨ename, hname, rfl⟩ := List.mem_map.mp hheader
      exact accurate_experimentStats options hfinite hname
    · cases hheader

/-- Two experiments that take turns. -/
def interleaved : List (Sample (WithBot (WithTop ℕ))) :=
  [exampleSample "star" "" 9 [], exampleSample "ring" "" 3 [], exampleSample "star" "" 1 [],
    exampleSample "ring" "" 5 []]

theorem accurate_of_interleaved :
    (printHost printAll interleaved).stdout.map ExperimentStats.experiment = ["ring", "star"] ∧
      ∀ stats ∈ (printHost printAll interleaved).stdout, Accurate interleaved stats := by
  have hfinite : ∀ sample ∈ interleaved, ⊥ < sample.totalTime ∧ sample.totalTime < ⊤ := by
    decide +kernel
  obtain ⟨hnames, -, hstats, -⟩ := statistics_accurate printAll hfinite
  refine ⟨?_, hstats⟩
  rw [hnames]
  decide +kernel

end Statistics

end Grvy.History
