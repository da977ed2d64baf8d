import Mathlib.Algebra.Order.Ring.Rat
import Mathlib.Algebra.BigOperators.Group.Finset.Piecewise
import Mathlib.Tactic.Ring
import Grvy.Lib.TimedTrace
import Grvy.Lib.TreeMapCensus
import Grvy.Timing.Timer

/-!
What the timers measure.

A well-nested sequence of calls says at each moment which timers are open, and
in which order they were begun. The exclusive time of a key is the time during
which its timer is the innermost open one, the inclusive time the time during
which it is open. The timer object keeps neither directly: a timer that is
interrupted moves what it has measured so far to `accumulated` and goes on
from a new timestamp. The invariant `Tracks` says what is booked where: a
timer outside the open ones in `timings[0]`, an interrupted one in
`timings[0] + accumulated`, and the innermost one in these two together with
the time since its last timestamp.
-/

namespace Grvy.Timing

open Std (TreeMap)
open Grvy.Lib Grvy.Lib.TimedTrace

/-! ### Sequences of calls and what they should measure -/

/-- A key as users give it: not empty, ASCII, and not the global key. -/
def UserId (id : TimerId) : Prop := id ≠ [] ∧ (∀ c ∈ id, c < 128) ∧ id ≠ gtimer

instance (id : TimerId) : Decidable (UserId id) :=
  inferInstanceAs (Decidable (_ ∧ _ ∧ _))

/-- The open timers after a call, innermost first. -/
def stepOpen : List TimerId → Call → List TimerId
  | opened, .beginTimer id => id :: opened
  | opened, .endTimer _ => opened.tail

/-- Each `EndTimer` closes the innermost open timer, no timer is begun while it
is open, and in the end all are closed. -/
def WellNested : List TimerId → List (ℚ × Call) → Prop
  | opened, [] => opened = []
  | opened, (_, .beginTimer id) :: calls =>
      UserId id ∧ id ∉ opened ∧ WellNested (id :: opened) calls
  | opened, (_, .endTimer id) :: calls =>
      opened.head? = some id ∧ WellNested opened.tail calls

instance decidableWellNested : (opened : List TimerId) → (calls : List (ℚ × Call)) →
    Decidable (WellNested opened calls)
  | opened, [] => inferInstanceAs (Decidable (opened = []))
  | opened, (_, .beginTimer id) :: calls =>
      have := decidableWellNested (id :: opened) calls
      inferInstanceAs (Decidable (UserId id ∧ id ∉ opened ∧ WellNested (id :: opened) calls))
  | opened, (_, .endTimer id) :: calls =>
      have := decidableWellNested opened.tail calls
      inferInstanceAs (Decidable (opened.head? = some id ∧ WellNested opened.tail calls))

/-- The time during which `id` is the innermost open timer. -/
def exclusiveTime (id : TimerId) : List TimerId → ℚ → List (ℚ × Call) → ℚ :=
  timeIn stepOpen fun opened => opened.head? = some id

/-- The time during which `id` is open. -/
def inclusiveTime (id : TimerId) : List TimerId → ℚ → List (ℚ × Call) → ℚ :=
  timeIn stepOpen fun opened => id ∈ opened

/-- The time during which at least one timer is open. -/
def busyTime : List TimerId → ℚ → List (ℚ × Call) → ℚ :=
  timeIn stepOpen fun opened => opened ≠ []

/-- How many intervals of `id` are closed. -/
def closedIntervals (id : TimerId) (calls : List (ℚ × Call)) : ℕ :=
  calls.countP fun e => e.2 = .endTimer id

/-! ### The invariant -/

/-- The entry for `id` accounts for the exclusive time `excl`, the inclusive
time `incl` and `n` closed intervals at time `t`. -/
def Booked (opened : List TimerId) (t : ℚ) (id : TimerId) (excl incl : ℚ) (n : ℕ) :
    Option TimerData → Prop
  | none => id ∉ opened ∧ excl = 0 ∧ incl = 0 ∧ n = 0
  | some d =>
      excl = d.timings0 +
          (if id ∈ opened then
            d.accumulated + if opened.head? = some id then t - d.timings1 else 0
          else 0) ∧
        incl = d.timingsInc0 + (if id ∈ opened then t - d.timingsInc1 else 0) ∧
        d.stats.length = n

/-- At time `t` the timer object, started at `t₀`, has the timers `opened`
running and has booked the given times and counts. -/
structure Tracks (t₀ : ℚ) (opened : List TimerId) (t : ℚ) (excl incl : TimerId → ℚ)
    (n : TimerId → ℕ) (s : Timer) : Prop where
  numBegins : s.numBegins = opened.length + 1
  callgraph : ∃ base, s.callgraph = opened ++ [base]
  nodup : opened.Nodup
  user : ∀ id ∈ opened, UserId id
  global : ∃ d, s.timerMap[gtimer]? = some d ∧ d.timings0 = 0 ∧ d.timings1 = t₀ ∧
    d.accumulated = 0
  entry : ∀ id, id ≠ gtimer → Booked opened t id (excl id) (incl id) (n id) s.timerMap[id]?

variable {t₀ t t' : ℚ} {opened rest : List TimerId} {excl incl : TimerId → ℚ}
  {n : TimerId → ℕ} {s : Timer} {id : TimerId}

/-- Time passes: the innermost timer takes it all, and every open timer takes it
inclusively. -/
theorem Tracks.advance (h : Tracks t₀ opened t excl incl n s) (t' : ℚ) :
    Tracks t₀ opened t' (fun id => excl id + if opened.head? = some id then t' - t else 0)
      (fun id => incl id + if id ∈ opened then t' - t else 0) n s := by
  refine ⟨h.numBegins, h.callgraph, h.nodup, h.user, h.global, fun id hid => ?_⟩
  have hentry := h.entry id hid
  cases hmap : s.timerMap[id]? with
  | none =>
      rw [hmap] at hentry
      obtain ⟨hclosed, hexcl, hincl, hn⟩ := hentry
      have hhead : opened.head? ≠ some id := fun heq => hclosed (List.mem_of_head? heq)
      exact ⟨hclosed, by rw [hexcl, if_neg hhead, add_zero],
        by rw [hincl, if_neg hclosed, add_zero], hn⟩
  | some d =>
      rw [hmap] at hentry
      obtain ⟨hexcl, hincl, hn⟩ := hentry
      refine ⟨?_, ?_, hn⟩
      · rw [hexcl]
        by_cases hhead : opened.head? = some id
        · have hopen : id ∈ opened := List.mem_of_head? hhead
          simp only [hhead, hopen, if_true]
          ring
        · simp only [hhead, if_false]
          ring
      · rw [hincl]
        by_cases hopen : id ∈ opened
        · simp only [hopen, if_true]
          ring
        · simp only [hopen, if_false]
          ring

/-! ### What a call books -/

/-- A timer that begins books nothing. -/
theorem Booked.begin {e i : ℚ} {k : ℕ} {data : Option TimerData} (hid : id ∉ opened)
    (h : Booked opened t id e i k data) :
    Booked (id :: opened) t id e i k (some (Timer.beginData t data)) := by
  cases data with
  | none =>
      obtain ⟨-, he, hi, hk⟩ := h
      simp [Booked, Timer.beginData, TimerData.first, he, hi, hk]
  | some d =>
      obtain ⟨he, hi, hk⟩ := h
      rw [if_neg hid, add_zero] at he hi
      simp [Booked, Timer.beginData, TimerData.restart, he, hi, hk]

/-- Around a timer that begins, the innermost timer so far is paused. -/
theorem Booked.interrupt {e i : ℚ} {k : ℕ} {data : Option TimerData} {id' : TimerId}
    (hne : id ≠ id') (h : Booked opened t id e i k data) :
    Booked (id' :: opened) t id e i k
      (if opened.head? = some id then data.map (TimerData.pause t) else data) := by
  have hhead : (id' :: opened).head? ≠ some id := fun heq => hne (Option.some.inj heq).symm
  have hmem : id ∈ id' :: opened ↔ id ∈ opened := by simp [hne]
  cases data with
  | none =>
      obtain ⟨hclosed, hrest⟩ := h
      simpa [Booked, hmem] using ⟨hclosed, hrest⟩
  | some d =>
      obtain ⟨he, hi, hk⟩ := h
      by_cases hin : opened.head? = some id
      · have hopen : id ∈ opened := List.mem_of_head? hin
        simp only [hin, hopen, if_true] at he hi ⊢
        refine ⟨?_, ?_, hk⟩
        · rw [if_pos (hmem.mpr hopen), if_neg hhead, he]
          simp only [TimerData.pause]
          ring
        · rw [if_pos (hmem.mpr hopen), hi]
          rfl
      · simp only [hin, if_false] at he ⊢
        refine ⟨?_, ?_, hk⟩
        · simp only [hmem, hhead, if_false]
          exact he
        · simp only [hmem]
          exact hi

/-- A timer that ends books what it has measured, and one more interval. -/
theorem Booked.finish {e i : ℚ} {k : ℕ} {d : TimerData} (hid : id ∉ rest)
    (h : Booked (id :: rest) t id e i k (some d)) :
    Booked rest t id e i (k + 1) (some (d.finish t)) := by
  obtain ⟨he, hi, hk⟩ := h
  simp only [List.mem_cons_self, List.head?_cons, if_true] at he hi
  refine ⟨?_, ?_, ?_⟩
  · simp only [hid, if_false, TimerData.finish, TimerData.increment]
    rw [he]
    ring
  · simp only [hid, if_false, TimerData.finish, TimerData.inclusiveIncrement]
    rw [hi]
    ring
  · simp [TimerData.finish, hk]

/-- Around a timer that ends, the timer it had interrupted is resumed. -/
theorem Booked.resume {e i : ℚ} {k : ℕ} {data : Option TimerData} {id' : TimerId}
    (hne : id ≠ id') (h : Booked (id' :: rest) t id e i k data) :
    Booked rest t id e i k
      (if rest.head? = some id then data.map (TimerData.resume t) else data) := by
  have hhead : (id' :: rest).head? ≠ some id := fun heq => hne (Option.some.inj heq).symm
  have hmem : id ∈ id' :: rest ↔ id ∈ rest := by simp [hne]
  cases data with
  | none =>
      obtain ⟨hclosed, hrest⟩ := h
      simpa [Booked, hmem] using ⟨hmem.not.mp hclosed, hrest⟩
  | some d =>
      obtain ⟨he, hi, hk⟩ := h
      simp only [hmem, hhead, if_false, add_zero] at he hi
      by_cases hin : rest.head? = some id
      · have hopen : id ∈ rest := List.mem_of_head? hin
        simp only [hin, if_true, Option.map_some]
        refine ⟨?_, ?_, hk⟩
        · simp only [hopen, hin, if_true] at he ⊢
          simp [TimerData.resume, he]
        · exact hi
      · simp only [hin, if_false]
        refine ⟨?_, hi, hk⟩
        simp only [hin, if_false, add_zero]
        exact he

/-! ### What a call does to a tracked object -/

/-- Above the bottom of the callgraph the surrounding timer is the innermost
open one. -/
theorem surroundingData_eq {base : TimerId} (hbegins : s.numBegins = opened.length + 2)
    (hgraph : s.callgraph = opened ++ [base]) (f : TimerData → TimerData) (id : TimerId) :
    s.surroundingData f id =
      if opened.head? = some id then s.timerMap[id]?.map f else s.timerMap[id]? := by
  rw [Timer.surroundingData, hgraph]
  cases opened with
  | nil =>
      rw [if_neg (by rw [hbegins, List.length_nil]; omega), if_neg (by simp)]
  | cons x rest =>
      have htwo : 2 < s.numBegins := by
        rw [hbegins, List.length_cons]
        omega
      simp [htwo]

theorem hasSurrounding_of {base : TimerId} (hbegins : s.numBegins = opened.length + 2)
    (hgraph : s.callgraph = opened ++ [base])
    (hmap : ∀ id ∈ opened, ∃ d, s.timerMap[id]? = some d) : s.HasSurrounding := by
  intro htwo
  cases opened with
  | nil =>
      rw [hbegins, List.length_nil] at htwo
      omega
  | cons x rest =>
      obtain ⟨d, hd⟩ := hmap x List.mem_cons_self
      exact ⟨x, rest ++ [base], d, hgraph, hd⟩

/-- Every open timer has data. -/
theorem Tracks.data (h : Tracks t₀ opened t excl incl n s) :
    ∀ id ∈ opened, ∃ d, s.timerMap[id]? = some d := by
  intro id hid
  have hentry := h.entry id (h.user id hid).2.2
  cases hmap : s.timerMap[id]? with
  | none =>
      rw [hmap] at hentry
      exact absurd hid hentry.1
  | some d => exact ⟨d, rfl⟩

theorem Tracks.head_ne_gtimer (h : Tracks t₀ opened t excl incl n s) :
    opened.head? ≠ some gtimer := fun heq => (h.user _ (List.mem_of_head? heq)).2.2 rfl

theorem asSize_of_nonneg {k : ℤ} (h : 0 ≤ k) : asSize k = k := by
  rw [asSize, if_neg (by omega)]

theorem beginTimer_tracks (h : Tracks t₀ opened t excl incl n s) (huser : UserId id)
    (hid : id ∉ opened) :
    ∃ s', s.beginTimer id t = .ok s' ∧ Tracks t₀ (id :: opened) t excl incl n s' := by
  obtain ⟨base, hgraph⟩ := h.callgraph
  have hbegins : s.numBegins + 1 = opened.length + 2 := by
    rw [h.numBegins]
    omega
  have hdata := surroundingData_eq (s := { s with numBegins := s.numBegins + 1 }) hbegins hgraph
    (TimerData.pause t)
  obtain ⟨s', hbegin⟩ := Timer.beginTimer_isOk id t
    (hasSurrounding_of (s := { s with numBegins := s.numBegins + 1 }) hbegins hgraph h.data)
  obtain ⟨hnum, hcalls, hself, hother⟩ := Timer.beginTimer_inv hbegin
  refine ⟨s', hbegin, ?_, ⟨base, ?_⟩, ?_, ?_, ?_, ?_⟩
  · rw [hnum, hbegins, List.length_cons]
    omega
  · rw [hcalls, hgraph, if_pos, List.cons_append]
    rw [asSize_of_nonneg (by omega), List.length_append, List.length_singleton]
    omega
  · exact List.nodup_cons.mpr ⟨hid, h.nodup⟩
  · intro id' hmem
    rcases List.mem_cons.mp hmem with rfl | hmem
    · exact huser
    · exact h.user id' hmem
  · obtain ⟨d, hd, hrest⟩ := h.global
    refine ⟨d, ?_, hrest⟩
    rw [hother gtimer huser.2.2.symm, hdata, if_neg h.head_ne_gtimer]
    exact hd
  · intro id' hid'
    by_cases heq : id' = id
    · subst heq
      have hhead : opened.head? ≠ some id' := fun heq => hid (List.mem_of_head? heq)
      rw [hself, hdata, if_neg hhead]
      exact (h.entry id' hid').begin hid
    · rw [hother id' heq, hdata]
      exact (h.entry id' hid').interrupt heq

theorem toInt8_nonneg {c : UInt8} (h : c < 128) : ¬c.toInt8 < 0 := by
  rw [Int8.lt_iff_toInt_lt]
  have hc : c.toNat < 128 := UInt8.lt_iff_toNat_lt.mp h
  change ¬c.toBitVec.toInt < 0
  rw [BitVec.toInt_eq_toNat_of_lt]
  · omega
  · change 2 * c.toNat < 256
    omega

/-- The test on the second character of the key lets ASCII keys pass. -/
theorem secondChar_of_userId (h : UserId id) : ∃ c, secondChar id = some c ∧ ¬c < 0 := by
  obtain ⟨hne, hascii, -⟩ := h
  match id with
  | [] => exact absurd rfl hne
  | [_] => exact ⟨0, rfl, by decide⟩
  | _ :: c :: _ => exact ⟨c.toInt8, rfl, toInt8_nonneg (hascii c (by simp))⟩

theorem endTimer_tracks (h : Tracks t₀ (id :: rest) t excl incl n s) :
    ∃ messages s', s.endTimer id t = .ok (messages, s') ∧
      Tracks t₀ rest t excl incl (fun id' => n id' + if id' = id then 1 else 0) s' := by
  have huser := h.user id List.mem_cons_self
  obtain ⟨base, hgraph⟩ := h.callgraph
  obtain ⟨hnot, hnodup⟩ := List.nodup_cons.mp h.nodup
  obtain ⟨c, hc, hpos⟩ := secondChar_of_userId huser
  obtain ⟨d, hd⟩ := h.data id List.mem_cons_self
  have hbegins : s.numBegins = rest.length + 2 := by
    rw [h.numBegins, List.length_cons]
    omega
  have htail : (s.popped id (d.finish t)).callgraph = rest ++ [base] := by
    rw [Timer.popped, hgraph]
    rfl
  have hne : ∀ id' ∈ rest, id' ≠ id := fun id' hmem heq => hnot (heq ▸ hmem)
  have hold : ∀ id', id' ≠ id →
      (s.popped id (d.finish t)).timerMap[id']? = s.timerMap[id']? :=
    fun id' hid' => getElem?_insert_of_ne hid'
  have hdata := surroundingData_eq (s := s.popped id (d.finish t)) hbegins htail
    (TimerData.resume t)
  obtain ⟨messages, s', hend⟩ := Timer.endTimer_isOk hd hc hpos
    (hasSurrounding_of hbegins htail fun id' hmem => by
      rw [hold id' (hne id' hmem)]
      exact h.data id' (List.mem_cons_of_mem _ hmem))
  obtain ⟨hnum, hcalls, hmap⟩ := Timer.endTimer_inv hd hc hpos hend
  refine ⟨messages, s', hend, ?_, ⟨base, hcalls.trans htail⟩, hnodup, ?_, ?_, ?_⟩
  · rw [hnum, hbegins]
    omega
  · exact fun id' hmem => h.user id' (List.mem_cons_of_mem _ hmem)
  · obtain ⟨dg, hdg, hrest⟩ := h.global
    have hhead : rest.head? ≠ some gtimer := fun heq =>
      (h.user _ (List.mem_cons_of_mem _ (List.mem_of_head? heq))).2.2 rfl
    refine ⟨dg, ?_, hrest⟩
    rw [hmap, hdata, if_neg hhead, hold gtimer huser.2.2.symm, hdg]
  · intro id' hid'
    rw [hmap, hdata]
    have hentry := h.entry id' hid'
    by_cases heq : id' = id
    · subst heq
      have hhead : rest.head? ≠ some id' := fun heq => hnot (List.mem_of_head? heq)
      rw [hd] at hentry
      rw [if_neg hhead, Timer.popped, TreeMap.getElem?_insert_self, if_pos rfl]
      exact hentry.finish hnot
    · rw [hold id' heq, if_neg heq, add_zero]
      exact hentry.resume heq

/-! ### Whole sequences of calls -/

/-- Once all timers are closed, the object has booked what the calls should
measure on top of what it had booked before. -/
theorem run_tracks {calls : List (ℚ × Call)} (h : Tracks t₀ opened t excl incl n s)
    (hnest : WellNested opened calls) :
    ∃ s', s.run calls = .ok s' ∧
      Tracks t₀ [] (endTime t calls) (fun id => excl id + exclusiveTime id opened t calls)
        (fun id => incl id + inclusiveTime id opened t calls)
        (fun id => n id + closedIntervals id calls) s' := by
  induction calls generalizing opened t excl incl n s with
  | nil =>
      obtain rfl : opened = [] := hnest
      refine ⟨s, rfl, ?_⟩
      simpa [exclusiveTime, inclusiveTime, closedIntervals, timeIn, endTime] using h
  | cons event calls ih =>
      obtain ⟨t', c⟩ := event
      have hadv := h.advance t'
      cases c with
      | beginTimer id =>
          obtain ⟨huser, hid, hnest⟩ := hnest
          obtain ⟨s₁, hbegin, h₁⟩ := beginTimer_tracks hadv huser hid
          obtain ⟨s', hrun, h'⟩ := ih h₁ hnest
          refine ⟨s', ?_, ?_⟩
          · simp only [Timer.run, Timer.call, hbegin, bind, Except.bind]
            exact hrun
          · simpa [exclusiveTime, inclusiveTime, closedIntervals, timeIn, endTime, stepOpen,
              add_assoc] using h'
      | endTimer id =>
          obtain ⟨hhead, hnest⟩ := hnest
          cases opened with
          | nil => cases hhead
          | cons x rest =>
              obtain rfl : x = id := Option.some.inj hhead
              obtain ⟨messages, s₁, hend, h₁⟩ := endTimer_tracks hadv
              obtain ⟨s', hrun, h'⟩ := ih h₁ hnest
              refine ⟨s', ?_, ?_⟩
              · simp only [Timer.run, Timer.call, hend, bind, Except.bind]
                exact hrun
              · have hcount : ∀ id', closedIntervals id' ((t', .endTimer x) :: calls) =
                    (if id' = x then 1 else 0) + closedIntervals id' calls := by
                  intro id'
                  rw [closedIntervals, List.countP_cons, closedIntervals, add_comm]
                  by_cases hid' : id' = x
                  · simp [hid']
                  · simp [hid', Ne.symm hid']
                simpa [exclusiveTime, inclusiveTime, hcount, timeIn, endTime, stepOpen,
                  add_assoc] using h'

end Grvy.Timing
