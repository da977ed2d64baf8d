import Mathlib.Algebra.Order.Field.Rat
import Mathlib.Algebra.BigOperators.Group.List.Basic
import Mathlib.Tactic.FieldSimp
import Mathlib.Tactic.Ring
import Grvy.Lib.ComparedMap
import Grvy.Timing.FreshStart

/-!
The report that `Summarize` prints.

The timers are listed by a map whose keys are their times, compared by the
exclusive time alone. Two timers with the same exclusive time are one key of
that map, and the later one takes the line of the earlier one. So the report is
complete if and only if the user timers have different exclusive times. Its
header and the width of its columns are left out, and all arithmetic is exact.
-/

namespace Grvy.Timing

open Std (TreeMap)
open Grvy.Lib

/-! ### The report -/

/-- The columns that statistics are printed in. -/
structure Statistics where
  /-- `N/A` without samples -/
  mean : Option ℚ
  variance : ℚ
  count : ℕ
  deriving DecidableEq, Repr

def statistics (samples : List ℚ) : Statistics :=
  let mean := samples.sum / samples.length
  { mean := if samples = [] then none else some mean
    variance := (samples.map fun x => (x - mean) ^ 2).sum / samples.length
    count := samples.length }

/-- The line of one key. -/
structure Line where
  id : TimerId
  seconds : ℚ
  percentage : ℚ
  statistics : Option Statistics
  deriving DecidableEq, Repr

structure Report where
  lines : List Line
  totaltime : ℚ
  totalPercentage : ℚ
  /-- Profile percentages do not sum to 100. -/
  unbalanced : Bool
  /-- Keys whose shortest sample is too short to be accurate. -/
  inaccurate : List (TimerId × ℚ)
  deriving DecidableEq, Repr

/-- `_GRVY_TIMER_THRESH` -/
def timerThresh : ℚ := 9 / 10 ^ 8

/-- `_GRVY_PERC_TOL` -/
def percTol : ℚ := 1 / 10 ^ 3

/-- `TimerCmpHighLow` compares the first of the two timings. -/
def TimerCmpHighLow (v1 v2 : ℚ × ℚ) : Prop := v1.1 - v2.1 > 0

instance : DecidableRel TimerCmpHighLow := fun v1 v2 =>
  inferInstanceAs (Decidable (v1.1 - v2.1 > 0))

theorem timerCmpHighLow_iff {v1 v2 : ℚ × ℚ} : TimerCmpHighLow v1 v2 ↔ v2.1 < v1.1 := sub_pos

instance : IsTrans (ℚ × ℚ) TimerCmpHighLow where
  trans _ _ _ h h' := by
    rw [timerCmpHighLow_iff] at h h' ⊢
    exact h'.trans h

namespace Timer

/-- The entry of a user timer in the list to be sorted. -/
def sortEntry (e : TimerId × TimerData) : (ℚ × ℚ) × TimerId :=
  ((e.2.timings0, e.2.timings1), e.1)

/-- `_GRVY_TimerMapSortHL`, filled with the user timers in the order of the map. -/
def sortHL (s : Timer) : List ((ℚ × ℚ) × TimerId) :=
  ComparedMap.assignAll TimerCmpHighLow []
    ((s.timerMap.toList.filter fun e => e.1 ≠ gtimer).map sortEntry)

/-- The samples an accumulator holds for a key. -/
def samples (s : Timer) (id : TimerId) : List ℚ := (s.timerMap[id]?.map TimerData.stats).getD []

def userLine (totaltime : ℚ) (s : Timer) (e : (ℚ × ℚ) × TimerId) : Line where
  id := e.2
  seconds := e.1.1
  percentage := 100 * e.1.1 / totaltime
  statistics := some (statistics (s.samples e.2))

/-- The left-over contribution in the main timer. -/
def globalLine (totaltime seconds : ℚ) : Line where
  id := gtimer
  seconds := seconds
  percentage := 100 * seconds / totaltime
  statistics := none

def inaccurate (s : Timer) : List (TimerId × ℚ) :=
  s.timerMap.toList.filterMap fun e =>
    (e.2.stats.min?.filter fun x => x < timerThresh).map fun x => (e.1, x)

/-- The part of `Summarize` that prints. It changes the time of the global key to
the exclusive one and restores it. -/
def report (s : Timer) : Except Misuse (Report × Timer) :=
  match s.timerMap[gtimer]? with
  | none => .error .endOfMap
  | some g =>
      let totaltime := g.timings0
      let subtime := s.subtime
      let g := { g with timings0 := totaltime - subtime }
      let s := { s with timerMap := s.timerMap.insert gtimer g }
      let lines := s.sortHL.map (s.userLine totaltime) ++ [globalLine totaltime g.timings0]
      let totalPercentage := (lines.map Line.percentage).sum
      let g := { g with timings0 := g.timings0 + subtime }
      let s := { s with timerMap := s.timerMap.insert gtimer g }
      .ok ({ lines := lines
             totaltime := totaltime
             totalPercentage := totalPercentage
             unbalanced := percTol < |totalPercentage - 100|
             inaccurate := s.inaccurate }, s)

def summarize (mytime : ℚ) (s : Timer) : Except Misuse (List Message × Report × Timer) := do
  let (messages, s) ← if s.finalized then .ok ([], s) else s.finalize mytime
  let (r, s) ← s.report
  .ok (messages, r, s)

end Timer

/-- The exclusive time of a key. -/
abbrev exclusive (s : Timer) (id : TimerId) : ℚ := s.timing TimerData.timings0 id

variable {s s' : Timer} {g : TimerData} {r : Report} {id : TimerId} {t : ℚ}

/-! ### What the report leaves alone -/

theorem report_isOk (h : s.timerMap[gtimer]? = some g) : ∃ r s', s.report = .ok (r, s') := by
  rw [Timer.report, h]
  exact ⟨_, _, rfl⟩

/-- Printing the report changes nothing. -/
theorem report_keeps (h : s.report = .ok (r, s')) :
    ∃ m, s' = { s with timerMap := m } ∧ ∀ id : TimerId, m[id]? = s.timerMap[id]? := by
  cases hg : s.timerMap[gtimer]? with
  | none =>
      rw [Timer.report, hg] at h
      cases h
  | some g =>
      simp only [Timer.report, hg, Except.ok.injEq, Prod.mk.injEq] at h
      obtain ⟨-, rfl⟩ := h
      refine ⟨_, rfl, fun id => ?_⟩
      by_cases hid : id = gtimer
      · subst hid
        rw [TreeMap.getElem?_insert_self, hg, sub_add_cancel]
      · rw [getElem?_insert_of_ne hid, getElem?_insert_of_ne hid]

/-- The state in which the lines are printed. -/
def held (g : TimerData) (s : Timer) : Timer :=
  { s with timerMap := s.timerMap.insert gtimer { g with timings0 := g.timings0 - s.subtime } }

theorem held_getElem? (hid : id ≠ gtimer) : (held g s).timerMap[id]? = s.timerMap[id]? :=
  getElem?_insert_of_ne hid

theorem timing_held (field : TimerData → ℚ) (hid : id ≠ gtimer) :
    (held g s).timing field id = s.timing field id := by
  rw [Timer.timing, Timer.timing, held_getElem? hid]

theorem userIds_held : (userIds (held g s)).Perm (userIds s) := by
  apply (List.perm_ext_iff_of_nodup (nodup_userIds _) (nodup_userIds _)).mpr
  intro id
  rw [mem_userIds, mem_userIds]
  exact and_congr_right fun hid => by rw [held_getElem? hid]

theorem report_lines (hg : s.timerMap[gtimer]? = some g) (h : s.report = .ok (r, s')) :
    r.lines = (held g s).sortHL.map ((held g s).userLine g.timings0) ++
      [Timer.globalLine g.timings0 (g.timings0 - s.subtime)] := by
  simp only [Timer.report, hg, Except.ok.injEq, Prod.mk.injEq] at h
  obtain ⟨rfl, -⟩ := h
  rfl

/-! ### Lines and user timers -/

/-- The list to be sorted has an entry for each user timer, with its times. -/
theorem map_sortEntry (s : Timer) :
    (s.timerMap.toList.filter fun e => e.1 ≠ gtimer).map Timer.sortEntry =
      (userIds s).map fun id => ((exclusive s id, s.timing TimerData.timings1 id), id) := by
  rw [userIds, List.map_map]
  apply List.map_congr_left
  rintro ⟨id, d⟩ hmem
  have hd : s.timerMap[id]? = some d :=
    TreeMap.mem_toList_iff_getElem?_eq_some.mp (List.mem_of_mem_filter hmem)
  simp [Timer.sortEntry, Timer.timing, hd]

/-- Two user timers share a line if they have the same exclusive time. -/
theorem apart_iff {v1 v2 : ℚ × ℚ} :
    ComparedMap.Apart TimerCmpHighLow v1 v2 ↔ v1.1 ≠ v2.1 := by
  rw [ComparedMap.Apart, timerCmpHighLow_iff, timerCmpHighLow_iff, or_comm]
  exact lt_or_lt_iff_ne

theorem sortHL_sorted (s : Timer) : s.sortHL.Pairwise fun e e' => e'.1.1 < e.1.1 := by
  have hordered : ComparedMap.Ordered TimerCmpHighLow s.sortHL :=
    ComparedMap.ordered_assignAll List.Pairwise.nil
  exact hordered.imp timerCmpHighLow_iff.mp

/-- Each line shows the time of its timer, ties included. -/
theorem sortHL_seconds (s : Timer) : ∀ e ∈ s.sortHL, e.1.1 = exclusive s e.2 := by
  have htied : ∀ (v1 v2 : ℚ × ℚ) (id : TimerId),
      ¬ComparedMap.Apart TimerCmpHighLow v1 v2 → v1.1 = exclusive s id →
        v2.1 = exclusive s id := by
    intro v1 v2 id htied hv
    rw [apart_iff, not_not] at htied
    rw [← htied]
    exact hv
  apply ComparedMap.forall_assignAll htied
  · intro e he
    rw [map_sortEntry, List.mem_map] at he
    obtain ⟨id, -, rfl⟩ := he
    rfl
  · intro e he
    cases he

/-- Every user timer has a line of its own if and only if no two have the same
exclusive time. -/
theorem sortHL_complete_iff (s : Timer) :
    (s.sortHL.map Prod.snd).Perm (userIds s) ↔
      (userIds s).Pairwise fun i j => exclusive s i ≠ exclusive s j := by
  have hentries : (([] : List ((ℚ × ℚ) × TimerId)) ++
        (s.timerMap.toList.filter fun e => e.1 ≠ gtimer).map Timer.sortEntry).Pairwise
          (fun e e' => ComparedMap.Apart TimerCmpHighLow e.1 e'.1) ↔
      (userIds s).Pairwise fun i j => exclusive s i ≠ exclusive s j := by
    rw [List.nil_append, map_sortEntry, List.pairwise_map]
    simp only [apart_iff]
  rw [← hentries]
  constructor
  · intro hperm
    apply ComparedMap.apart_of_length_assignAll List.Pairwise.nil
    have hlen := hperm.length_eq
    rw [List.length_map, Timer.sortHL] at hlen
    rw [hlen, List.length_nil, Nat.zero_add, userIds, List.length_map, List.length_map]
  · intro happart
    have hperm := (ComparedMap.assignAll_perm happart).map Prod.snd
    rw [List.nil_append, map_sortEntry, List.map_map] at hperm
    have hids : (userIds s).map (Prod.snd ∘ fun id : TimerId =>
        ((exclusive s id, s.timing TimerData.timings1 id), id)) = userIds s := List.map_id _
    rw [hids] at hperm
    rw [Timer.sortHL, map_sortEntry]
    exact hperm

/-! ### Completeness -/

/-- The report has one line for each user timer, longest first, then the line of
the global key, and the percentages add up. -/
def Complete (s : Timer) (r : Report) : Prop :=
  ∃ (user : List Line) (rest : Line), r.lines = user ++ [rest] ∧
    (user.map Line.id).Perm (userIds s) ∧
    (∀ l ∈ user, l.seconds = exclusive s l.id) ∧
    user.Pairwise (fun l l' => l'.seconds ≤ l.seconds) ∧
    rest.id = gtimer ∧
    (0 < exclusive s gtimer → (r.lines.map Line.percentage).sum = 100)

theorem sum_percentages {lines : List Line} (total : ℚ)
    (h : ∀ l ∈ lines, l.percentage = 100 * l.seconds / total) :
    (lines.map Line.percentage).sum = 100 * (lines.map Line.seconds).sum / total := by
  induction lines with
  | nil => simp
  | cons l lines ih =>
      have hrest := ih fun l' hl' => h l' (List.mem_cons_of_mem _ hl')
      rw [List.map_cons, List.sum_cons, List.map_cons, List.sum_cons, hrest,
        h l List.mem_cons_self]
      ring

theorem subtime_eq (s : Timer) :
    s.subtime = ((userIds s).map fun id => exclusive s id).sum :=
  subtime_eq_sum_timing s

theorem exclusive_held (hid : id ∈ userIds s) : exclusive (held g s) id = exclusive s id :=
  timing_held _ (mem_userIds.mp hid).1

/-- Ties are not affected by what is held for the global key. -/
theorem pairwise_held :
    ((userIds (held g s)).Pairwise fun i j =>
        exclusive (held g s) i ≠ exclusive (held g s) j) ↔
      (userIds s).Pairwise fun i j => exclusive s i ≠ exclusive s j := by
  rw [userIds_held.pairwise_iff fun h => Ne.symm h]
  constructor
  · intro h
    exact h.imp_of_mem fun hi hj hne => by rwa [exclusive_held hi, exclusive_held hj] at hne
  · intro h
    exact h.imp_of_mem fun hi hj hne => by rwa [exclusive_held hi, exclusive_held hj]

/-- If each user timer has a line with its time, the lines share out the total. -/
theorem sum_seconds (hg : s.timerMap[gtimer]? = some g) (h : s.report = .ok (r, s'))
    (hids : (((held g s).sortHL.map ((held g s).userLine g.timings0)).map Line.id).Perm
      (userIds s))
    (hseconds : ∀ l ∈ (held g s).sortHL.map ((held g s).userLine g.timings0),
      l.seconds = exclusive s l.id) : (r.lines.map Line.seconds).sum = g.timings0 := by
  have huserSum := (hids.map (exclusive s)).sum_eq
  rw [List.map_map, ← subtime_eq] at huserSum
  rw [report_lines hg h, List.map_append, List.sum_append, List.map_congr_left hseconds]
  change (List.map (exclusive s ∘ Line.id) _).sum + _ = _
  rw [huserSum]
  simp [Timer.globalLine]

theorem percentage_eq (hg : s.timerMap[gtimer]? = some g) (h : s.report = .ok (r, s')) :
    ∀ l ∈ r.lines, l.percentage = 100 * l.seconds / g.timings0 := by
  intro l hl
  rw [report_lines hg h] at hl
  rcases List.mem_append.mp hl with hl | hl
  · obtain ⟨e, -, rfl⟩ := List.mem_map.mp hl
    rfl
  · rw [List.mem_singleton.mp hl]
    rfl

/-- **Summary.** A finalized object prints a complete report if and only if no
two of its user timers have the same exclusive time. -/
theorem summary_complete_iff (hfinal : s.finalized = true)
    (hglobal : s.timerMap[gtimer]? = some g) (t : ℚ) :
    ∃ r s', s.summarize t = .ok ([], r, s') ∧
      (Complete s r ↔
        (userIds s).Pairwise fun i j => exclusive s i ≠ exclusive s j) := by
  obtain ⟨r, s', hreport⟩ := report_isOk hglobal
  refine ⟨r, s', by simp [Timer.summarize, hfinal, hreport, bind, Except.bind], ?_⟩
  have hlines := report_lines hglobal hreport
  rw [← pairwise_held (g := g), ← sortHL_complete_iff]
  constructor
  · rintro ⟨user, rest, hshape, hperm, -⟩
    rw [hlines] at hshape
    obtain ⟨rfl, -⟩ := List.append_inj' hshape rfl
    rw [List.map_map] at hperm
    exact hperm.trans userIds_held.symm
  · intro hperm
    have hids : (((held g s).sortHL.map ((held g s).userLine g.timings0)).map Line.id).Perm
        (userIds s) := by
      rw [List.map_map]
      exact hperm.trans userIds_held
    have hseconds : ∀ l ∈ (held g s).sortHL.map ((held g s).userLine g.timings0),
        l.seconds = exclusive s l.id := by
      intro l hl
      have hid := hids.mem_iff.mp (List.mem_map_of_mem hl)
      obtain ⟨e, he, rfl⟩ := List.mem_map.mp hl
      rw [← exclusive_held (g := g) hid]
      exact sortHL_seconds _ e he
    refine ⟨_, _, hlines, hids, hseconds, ?_, rfl, fun htotal => ?_⟩
    · rw [List.pairwise_map]
      exact (sortHL_sorted _).imp le_of_lt
    · have htime : exclusive s gtimer = g.timings0 := by simp [Timer.timing, hglobal]
      rw [htime] at htotal
      rw [sum_percentages g.timings0 (percentage_eq hglobal hreport),
        sum_seconds hglobal hreport hids hseconds]
      field_simp

/-- A new object measures `a` for one unit of time, then `b` until `t`, and is
finalized. -/
def measureTwo (t : ℚ) : Except Misuse Timer := do
  let s ← Timer.construct 0
  let s ← s.init "x" 0
  let s ← s.run [(1, .beginTimer (key "a")), (2, .endTimer (key "a")),
    (2, .beginTimer (key "b")), (t, .endTimer (key "b"))]
  let (_, s) ← s.finalize 5
  .ok s

/-- Timers of one and of two units of time both have their lines. -/
theorem complete_without_ties :
    ∃ s r s', measureTwo 4 = .ok s ∧ s.summarize 6 = .ok ([], r, s') ∧ Complete s r := by
  have hrun : ∃ s, measureTwo 4 = .ok s ∧ (s.finalized ∧ (s.timerMap[gtimer]?).isSome ∧
      (userIds s).Pairwise fun i j => exclusive s i ≠ exclusive s j : Bool) = true :=
    exists_ok_of_any (by decide +kernel)
  obtain ⟨s, hs, htest⟩ := hrun
  obtain ⟨hfinal, hglobal, hties⟩ := of_decide_eq_true htest
  obtain ⟨g, hg⟩ := Option.isSome_iff_exists.mp hglobal
  obtain ⟨r, s', hsum, hiff⟩ := summary_complete_iff hfinal hg 6
  exact ⟨s, r, s', hs, hsum, hiff.mpr hties⟩

/-- Of two timers of one unit of time each, only one is printed. -/
theorem incomplete_with_tie :
    ∃ s r s', measureTwo 3 = .ok s ∧ s.finalized = true ∧ s.summarize 6 = .ok ([], r, s') ∧
      ¬Complete s r := by
  have hrun : ∃ s, measureTwo 3 = .ok s ∧ (s.finalized ∧ (userIds s).length = 2 ∧
      (s.summarize 6).toOption.any fun out => out.1 = [] ∧ out.2.1.lines.length = 2 : Bool) =
        true :=
    exists_ok_of_any (by decide +kernel)
  obtain ⟨s, hs, htest⟩ := hrun
  obtain ⟨hfinal, hids, hsum⟩ := of_decide_eq_true htest
  obtain ⟨⟨messages, r, s'⟩, hsum, hlines⟩ := exists_ok_of_any hsum
  obtain ⟨rfl, hlines⟩ := of_decide_eq_true hlines
  refine ⟨s, r, s', hs, hfinal, hsum, ?_⟩
  rintro ⟨user, rest, hshape, hperm, -⟩
  have hlen := hperm.length_eq
  rw [List.length_map, hids] at hlen
  rw [hshape, List.length_append, hlen] at hlines
  cases hlines

end Grvy.Timing
