import Grvy.Timing.Lifecycle

/-!
`Summarize` as a pure report.

The report is printed with one iterator: it stands at the global key while the
exclusive time is stored there, at the key of each timer in turn while its
statistics are printed, and at the global key again when the time is restored.
Whatever the timers and their order, that is the report read off the map, and
the object is afterwards what it was before. Repeated reports are the same.
-/

namespace Grvy.Timing

open Std (TreeMap)
open Grvy.Lib

/-! ### The iterator -/

/-- An iterator of the map: at a key, or at the end. -/
abbrev Iterator := Option TimerId

namespace Timer

def find (id : TimerId) (s : Timer) : Iterator := if id ∈ s.timerMap then some id else none

/-- `index->second` -/
def deref (index : Iterator) (s : Timer) : Except Misuse TimerData :=
  match index.bind fun id => s.timerMap[id]? with
  | none => .error .endOfMap
  | some d => .ok d

/-- `(index->second).timings[0] = seconds` -/
def setTimings0 (index : Iterator) (seconds : ℚ) (s : Timer) : Except Misuse Timer :=
  match index with
  | none => .error .endOfMap
  | some id =>
      match s.timerMap[id]? with
      | none => .error .endOfMap
      | some d =>
          .ok { s with timerMap := s.timerMap.insert id { d with timings0 := seconds } }

/-- The loop over the sorted timers. It leaves the iterator at the last of them. -/
def printTimers (totaltime : ℚ) (s : Timer) :
    List ((ℚ × ℚ) × TimerId) → Iterator → Except Misuse (List Line × Iterator)
  | [], gindex => .ok ([], gindex)
  | indexHL :: rest, gindex => do
      let (stats, gindex) ←
        if indexHL.2 = gtimer then .ok (none, gindex)
        else do
          let gindex := s.find indexHL.2
          let d ← s.deref gindex
          .ok (some (statistics d.stats), gindex)
      let line : Line :=
        { id := indexHL.2
          seconds := indexHL.1.1
          percentage := 100 * indexHL.1.1 / totaltime
          statistics := stats }
      let (lines, gindex) ← printTimers totaltime s rest gindex
      .ok (line :: lines, gindex)

/-- The part of `Summarize` that prints, with its iterator. -/
def printReport (s : Timer) : Except Misuse (Report × Timer) := do
  let gindex := s.find gtimer
  let g ← s.deref gindex
  let totaltime := g.timings0
  let subtime := s.subtime
  -- Temporarily reset the global key to store the exclusive cumulative time only.
  let s ← s.setTimings0 gindex (totaltime - subtime)
  let (user, _) ← s.printTimers totaltime s.sortHL gindex
  let gindex := s.find gtimer
  let g ← s.deref gindex
  let lines := user ++ [globalLine totaltime g.timings0]
  let totalPercentage := (lines.map Line.percentage).sum
  -- Restore the global key timing to store inclusive cumulative time.
  let s ← s.setTimings0 gindex (g.timings0 + subtime)
  .ok ({ lines := lines
         totaltime := totaltime
         totalPercentage := totalPercentage
         unbalanced := percTol < |totalPercentage - 100|
         inaccurate := s.inaccurate }, s)

/-- One call of `Summarize` at a given clock value. -/
def printSummary (mytime : ℚ) (s : Timer) : Except Misuse ((List Message × Report) × Timer) := do
  let (messages, s) ← if s.finalized then .ok ([], s) else s.finalize mytime
  let (r, s) ← s.printReport
  .ok ((messages, r), s)

/-- Calls of `Summarize` one after another, with all they print. -/
def printSummaries : List ℚ → Timer → Except Misuse (List (List Message × Report) × Timer)
  | [], s => .ok ([], s)
  | mytime :: ts, s => do
      let (printed, s) ← s.printSummary mytime
      let (rest, s) ← printSummaries ts s
      .ok (printed :: rest, s)

end Timer

/-- Nothing that can be asked of the object differs. -/
structure Unchanged (s s' : Timer) : Prop where
  initialized : s'.initialized = s.initialized
  finalized : s'.finalized = s.finalized
  timerFinalize : s'.timerFinalize = s.timerFinalize
  timerName : s'.timerName = s.timerName
  numBegins : s'.numBegins = s.numBegins
  callgraph : s'.callgraph = s.callgraph
  /-- timings, inclusive timings and samples of every key -/
  timerMap : ∀ id : TimerId, s'.timerMap[id]? = s.timerMap[id]?

variable {s s' s₁ : Timer} {d g : TimerData} {r : Report} {id : TimerId} {t : ℚ}

theorem Unchanged.refl (s : Timer) : Unchanged s s := ⟨rfl, rfl, rfl, rfl, rfl, rfl, fun _ => rfl⟩

theorem Unchanged.trans (h : Unchanged s s₁) (h' : Unchanged s₁ s') : Unchanged s s' where
  initialized := h'.initialized.trans h.initialized
  finalized := h'.finalized.trans h.finalized
  timerFinalize := h'.timerFinalize.trans h.timerFinalize
  timerName := h'.timerName.trans h.timerName
  numBegins := h'.numBegins.trans h.numBegins
  callgraph := h'.callgraph.trans h.callgraph
  timerMap id := (h'.timerMap id).trans (h.timerMap id)

/-- The record of the report keeps the object as it was. -/
theorem Unchanged.of_report (h : s.report = .ok (r, s')) : Unchanged s s' := by
  obtain ⟨m, rfl, hm⟩ := report_keeps h
  exact ⟨rfl, rfl, rfl, rfl, rfl, rfl, hm⟩

/-! ### The iterator does not go astray -/

theorem find_of_getElem? (hd : s.timerMap[id]? = some d) : s.find id = some id := by
  have hmem : id ∈ s.timerMap := by
    rw [TreeMap.mem_iff_isSome_getElem?, hd]
    rfl
  rw [Timer.find, if_pos hmem]

theorem deref_find (hd : s.timerMap[id]? = some d) : s.deref (s.find id) = .ok d := by
  rw [find_of_getElem? hd, Timer.deref, Option.bind_some, hd]

theorem setTimings0_find (hd : s.timerMap[id]? = some d) (seconds : ℚ) :
    s.setTimings0 (s.find id) seconds =
      .ok { s with timerMap := s.timerMap.insert id { d with timings0 := seconds } } := by
  rw [find_of_getElem? hd]
  simp only [Timer.setTimings0, hd]

/-- The keys of the sorted list are user timers with data. -/
theorem sortHL_known (s : Timer) : ∀ e ∈ s.sortHL, e.2 ≠ gtimer ∧ Known s e.2 := by
  apply ComparedMap.forall_assignAll (P := fun _ id => id ≠ gtimer ∧ Known s id)
  · intro _ _ _ _ h
    exact h
  · intro e he
    obtain ⟨⟨id, d⟩, hmem, rfl⟩ := List.mem_map.mp he
    obtain ⟨hmem, hid⟩ := List.mem_filter.mp hmem
    exact ⟨of_decide_eq_true hid, d, TreeMap.mem_toList_iff_getElem?_eq_some.mp hmem⟩
  · intro e he
    cases he

/-- Wherever the loop starts, it prints the line of each timer. -/
theorem printTimers_eq (totaltime : ℚ) {es : List ((ℚ × ℚ) × TimerId)}
    (h : ∀ e ∈ es, e.2 ≠ gtimer ∧ Known s e.2) (gindex : Iterator) :
    ∃ last, s.printTimers totaltime es gindex = .ok (es.map (s.userLine totaltime), last) := by
  induction es generalizing gindex with
  | nil => exact ⟨gindex, rfl⟩
  | cons e es ih =>
      obtain ⟨hne, d, hd⟩ := h e List.mem_cons_self
      obtain ⟨last, hrest⟩ := ih (fun e' he' => h e' (List.mem_cons_of_mem _ he')) (s.find e.2)
      have hline : s.userLine totaltime e =
          { id := e.2
            seconds := e.1.1
            percentage := 100 * e.1.1 / totaltime
            statistics := some (statistics d.stats) } := by
        simp [Timer.userLine, Timer.samples, hd]
      refine ⟨last, ?_⟩
      simp only [Timer.printTimers, if_neg hne, deref_find hd, bind, Except.bind, hrest,
        List.map_cons, hline]

/-- Printing with the iterator is reading the report off the map. -/
theorem printReport_eq (s : Timer) : s.printReport = s.report := by
  cases hg : s.timerMap[gtimer]? with
  | none =>
      have hend : s.find gtimer = none := by
        rw [Timer.find, if_neg]
        rw [TreeMap.mem_iff_isSome_getElem?, hg]
        exact Bool.false_ne_true
      rw [Timer.printReport, Timer.report, hg, hend]
      rfl
  | some g =>
      have hheld : (held g s).timerMap[gtimer]? =
          some { g with timings0 := g.timings0 - s.subtime } := TreeMap.getElem?_insert_self
      obtain ⟨last, hlines⟩ := printTimers_eq g.timings0 (sortHL_known (held g s)) (s.find gtimer)
      have hset := setTimings0_find hg (g.timings0 - s.subtime)
      change _ = Except.ok (held g s) at hset
      have hrestore := setTimings0_find hheld (g.timings0 - s.subtime + s.subtime)
      simp only [Timer.printReport, deref_find hg, hset, hlines, deref_find hheld, hrestore, bind,
        Except.bind]
      rw [Timer.report, hg]
      rfl

theorem printSummary_eq (t : ℚ) (s : Timer) :
    s.printSummary t = (s.summarize t).map fun out => ((out.1, out.2.1), out.2.2) := by
  rw [Timer.printSummary, Timer.summarize]
  split
  · simp only [bind, Except.bind, printReport_eq]
    cases s.report <;> rfl
  · cases s.finalize t with
    | error e => rfl
    | ok out =>
        simp only [bind, Except.bind, printReport_eq]
        cases out.2.report <;> rfl

/-! ### The report depends on the map alone -/

theorem toList_eq_of_lookup {m m' : TreeMap TimerId TimerData}
    (h : ∀ id : TimerId, m'[id]? = m[id]?) : m'.toList = m.toList :=
  (TreeMap.Equiv.of_forall_constGet?_eq h).toList_eq

/-- A report with these lines. -/
def reportOf (totaltime : ℚ) (lines : List Line) (inaccurate : List (TimerId × ℚ)) : Report where
  lines := lines
  totaltime := totaltime
  totalPercentage := (lines.map Line.percentage).sum
  unbalanced := percTol < |(lines.map Line.percentage).sum - 100|
  inaccurate := inaccurate

theorem report_eq (hg : s.timerMap[gtimer]? = some g) (h : s.report = .ok (r, s')) :
    r = reportOf g.timings0
      ((held g s).sortHL.map ((held g s).userLine g.timings0) ++
        [Timer.globalLine g.timings0 (g.timings0 - s.subtime)]) s.inaccurate := by
  have hrestored : s'.inaccurate = s.inaccurate := by
    rw [Timer.inaccurate, Timer.inaccurate, toList_eq_of_lookup (Unchanged.of_report h).timerMap]
  rw [← hrestored]
  simp only [Timer.report, hg, Except.ok.injEq, Prod.mk.injEq] at h
  obtain ⟨rfl, rfl⟩ := h
  rfl

/-- Objects with the same timers print the same report. -/
theorem report_congr (h : ∀ id : TimerId, s'.timerMap[id]? = s.timerMap[id]?)
    (hr : s.report = .ok (r, s₁)) : ∃ s₁', s'.report = .ok (r, s₁') := by
  cases hg : s.timerMap[gtimer]? with
  | none =>
      rw [Timer.report, hg] at hr
      cases hr
  | some g =>
      have hg' : s'.timerMap[gtimer]? = some g := (h gtimer).trans hg
      have hsub : s'.subtime = s.subtime := by
        rw [Timer.subtime, Timer.subtime, toList_eq_of_lookup h]
      have hheld : ∀ id : TimerId, (held g s').timerMap[id]? = (held g s).timerMap[id]? := by
        intro id
        rw [held, held, hsub, TreeMap.getElem?_insert, TreeMap.getElem?_insert, h id]
      have hsort : (held g s').sortHL = (held g s).sortHL := by
        rw [Timer.sortHL, Timer.sortHL, toList_eq_of_lookup hheld]
      have hline : (held g s').userLine g.timings0 = (held g s).userLine g.timings0 := by
        funext e
        rw [Timer.userLine, Timer.userLine, Timer.samples, Timer.samples, hheld]
      have hshort : s'.inaccurate = s.inaccurate := by
        rw [Timer.inaccurate, Timer.inaccurate, toList_eq_of_lookup h]
      obtain ⟨r', s₁', hr'⟩ := report_isOk hg'
      refine ⟨s₁', ?_⟩
      rw [hr', report_eq hg' hr', report_eq hg hr, hsub, hsort, hline, hshort]

/-! ### Repeated reports -/

theorem printSummary_finalized (hfinal : s.finalized = true) (hr : s.report = .ok (r, s'))
    (t : ℚ) : s.printSummary t = .ok (([], r), s') := by
  rw [Timer.printSummary, if_pos hfinal]
  simp only [bind, Except.bind, printReport_eq, hr]

/-- A finalized object that prints `r` prints `r` again and again. -/
theorem printSummaries_finalized (hfinal : s.finalized = true) (hr : s.report = .ok (r, s₁))
    (ts : List ℚ) :
    ∃ s', s.printSummaries ts = .ok (ts.map fun _ => ([], r), s') ∧ Unchanged s s' := by
  induction ts generalizing s s₁ with
  | nil => exact ⟨s, rfl, Unchanged.refl s⟩
  | cons t ts ih =>
      have hkept := Unchanged.of_report hr
      obtain ⟨s₂, hagain⟩ := report_congr hkept.timerMap hr
      obtain ⟨s', hrest, hrestKept⟩ := ih (hkept.finalized.trans hfinal) hagain
      refine ⟨s', ?_, hkept.trans hrestKept⟩
      simp only [Timer.printSummaries, printSummary_finalized hfinal hr, bind, Except.bind, hrest,
        List.map_cons]

/-- The first report of an object that is not finalized is that of the object
after `Finalize`. -/
theorem printSummary_unfinalized {messages : List Message} (hfinal : s.finalized = false)
    (h : s.finalize t = .ok (messages, s₁)) (hr : s₁.report = .ok (r, s')) :
    s.printSummary t = .ok ((messages, r), s') := by
  rw [Timer.printSummary, if_neg (ne_true_of_eq_false hfinal)]
  simp only [bind, Except.bind, h, printReport_eq, hr]

theorem finalize_finalized {messages : List Message} (h : s.finalize t = .ok (messages, s')) :
    s'.finalized = true := by
  rw [Timer.finalize] at h
  obtain ⟨out, -, h⟩ := exists_of_bind_eq_ok h
  simp only [Except.ok.injEq, Prod.mk.injEq] at h
  obtain ⟨-, rfl⟩ := h
  rfl

theorem Sound.finalize (h : Sound s) (t : ℚ) :
    ∃ messages s', s.finalize t = .ok (messages, s') ∧ Sound s' := by
  obtain ⟨s', hs', hsound⟩ := h.perform t .finalize
  rw [Timer.perform] at hs'
  obtain ⟨⟨messages, s₁⟩, hfinal, hs'⟩ := exists_of_bind_eq_ok hs'
  obtain rfl := Except.ok.inj hs'
  exact ⟨messages, s₁, hfinal, hsound⟩

/-- **Pure report.** After any calls on an object, `Summarize` leaves a finalized
object as it is, and any number of reports are one report. An object not yet
finalized is afterwards what `Finalize` alone makes of it. -/
theorem summarize_pure (t₀ : ℚ) (ops : List (ℚ × Op)) :
    ∃ s₀ s, Timer.construct t₀ = .ok s₀ ∧ s₀.performAll ops = .ok s ∧
      (s.finalized = true → ∃ r, ∀ ts, ∃ s',
        s.printSummaries ts = .ok (ts.map fun _ => ([], r), s') ∧ Unchanged s s') ∧
      (s.finalized = false → ∀ t, ∃ messages s₁ r, s.finalize t = .ok (messages, s₁) ∧
        ∀ ts, ∃ s', s.printSummaries (t :: ts) =
          .ok ((messages, r) :: ts.map fun _ => ([], r), s') ∧ Unchanged s₁ s') := by
  obtain ⟨s₀, hs₀, hsound₀⟩ := construct_sound t₀
  obtain ⟨s, hs, hsound⟩ := hsound₀.performAll ops
  refine ⟨s₀, s, hs₀, hs, fun hfinal => ?_, fun hfinal t => ?_⟩
  · obtain ⟨r, s₁, hr, -⟩ := hsound.report
    exact ⟨r, printSummaries_finalized hfinal hr⟩
  · obtain ⟨messages, s₁, hfinalize, hsound₁⟩ := hsound.finalize t
    obtain ⟨r, s₂, hr, -⟩ := hsound₁.report
    have hfinal₁ := finalize_finalized hfinalize
    refine ⟨messages, s₁, r, hfinalize, fun ts => ?_⟩
    have hkept := Unchanged.of_report hr
    obtain ⟨s₃, hagain⟩ := report_congr hkept.timerMap hr
    obtain ⟨s', hrest, hrestKept⟩ :=
      printSummaries_finalized (hkept.finalized.trans hfinal₁) hagain ts
    refine ⟨s', ?_, hkept.trans hrestKept⟩
    simp only [Timer.printSummaries, printSummary_unfinalized hfinal hfinalize hr, bind,
      Except.bind, hrest]

end Grvy.Timing
