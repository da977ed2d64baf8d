import Grvy.Timing.Accounting

/-!
Where the accounting of the timers starts from.

The constructor starts the global timer on an empty callgraph. `Init` restarts
it and resets the count of active timers, but leaves the callgraph as it is.
If no user timer was open, the callgraph holds at most one key then, and the
object measures as a new one does. If one was open, its key stays on the
callgraph, keys begun later are not pushed any more, and `PauseTimer` and
`ResumeTimer` act on keys of the past.
-/

namespace Grvy.Timing

open Std (TreeMap)
open Grvy.Lib Grvy.Lib.TimedTrace

variable {t₀ t : ℚ} {s s' : Timer} {id : TimerId}

/-! ### Fresh objects -/

/-- An object that nothing is booked in. -/
def Cleared (s : Timer) : Prop :=
  ∀ (id : TimerId) (d : TimerData), s.timerMap[id]? = some d →
    d.timings0 = 0 ∧ d.timingsInc0 = 0 ∧ d.stats = []

theorem cleared_map (s : Timer) :
    Cleared { s with numBegins := 0, timerMap := s.timerMap.map fun _ d => d.clear } := by
  intro id d hd
  change (s.timerMap.map fun _ d => d.clear)[id]? = some d at hd
  rw [TreeMap.getElem?_map, Option.map_eq_some_iff] at hd
  obtain ⟨d', -, rfl⟩ := hd
  exact ⟨rfl, rfl, rfl⟩

/-- What starting the global timer does to an object with no active timers. -/
theorem begin_gtimer (h : s.numBegins = 0) (t : ℚ) :
    s.beginTimer gtimer t = .ok { s with
      numBegins := 1
      callgraph := if s.callgraph = [] then [gtimer] else s.callgraph
      timerMap := s.timerMap.insert gtimer (Timer.beginData t s.timerMap[gtimer]?) } := by
  rw [Timer.beginTimer, h, Timer.onSurrounding, if_neg (by change ¬(0 : ℤ) + 1 > 2; omega)]
  cases hgraph : s.callgraph with
  | nil => simp [bind, Except.bind, Timer.pushCallgraph, asSize]
  | cons x rest =>
      simp only [bind, Except.bind, Timer.pushCallgraph, asSize]
      rw [if_neg]
      · simp
      · simp only [List.length_cons]
        omega

theorem Cleared.begin_gtimer (hclear : Cleared s) (h : s.numBegins = 0) (t : ℚ) :
    ∃ s', s.beginTimer gtimer t = .ok s' ∧ Cleared s' ∧ s'.numBegins = 1 ∧
      s'.callgraph = if s.callgraph = [] then [gtimer] else s.callgraph := by
  refine ⟨_, Timing.begin_gtimer h t, fun id d hd => ?_, rfl, rfl⟩
  change (s.timerMap.insert gtimer _)[id]? = some d at hd
  by_cases hid : id = gtimer
  · subst hid
    rw [TreeMap.getElem?_insert_self, Option.some.injEq] at hd
    subst hd
    cases hold : s.timerMap[gtimer]? with
    | none => exact ⟨rfl, rfl, rfl⟩
    | some d =>
        obtain ⟨h0, hinc, hstats⟩ := hclear _ _ hold
        exact ⟨h0, hinc, hstats⟩
  · rw [getElem?_insert_of_ne hid] at hd
    exact hclear _ _ hd

theorem begin_gtimer_tracks (t₀ : ℚ) (hbegins : s.numBegins = 0) (hclear : Cleared s)
    (hgraph : s.callgraph.length ≤ 1) :
    ∃ s', s.beginTimer gtimer t₀ = .ok s' ∧
      Tracks t₀ [] t₀ (fun _ => 0) (fun _ => 0) (fun _ => 0) s' := by
  refine ⟨_, begin_gtimer hbegins t₀, rfl, ?_, List.nodup_nil, ?_, ?_, ?_⟩
  · match hcalls : s.callgraph with
    | [] => exact ⟨gtimer, by simp⟩
    | [base] => exact ⟨base, by simp⟩
    | _ :: _ :: _ =>
        rw [hcalls, List.length_cons, List.length_cons] at hgraph
        omega
  · intro id hid
    cases hid
  · refine ⟨_, TreeMap.getElem?_insert_self, ?_, ?_, ?_⟩
    · cases hd : s.timerMap[gtimer]? with
      | none => rfl
      | some d => exact (hclear _ _ hd).1
    · cases s.timerMap[gtimer]? <;> rfl
    · cases s.timerMap[gtimer]? <;> rfl
  · intro id hid
    change Booked _ _ _ _ _ _ (s.timerMap.insert gtimer _)[id]?
    rw [getElem?_insert_of_ne hid]
    cases hd : s.timerMap[id]? with
    | none => exact ⟨List.not_mem_nil, rfl, rfl, rfl⟩
    | some d =>
        obtain ⟨h0, hinc, hstats⟩ := hclear id d hd
        simp [Booked, h0, hinc, hstats]

theorem construct_tracks (t₀ : ℚ) :
    ∃ s, Timer.construct t₀ = .ok s ∧
      Tracks t₀ [] t₀ (fun _ => 0) (fun _ => 0) (fun _ => 0) s := by
  rw [Timer.construct]
  obtain ⟨s, hbegin, h⟩ := begin_gtimer_tracks t₀
    (s := ⟨false, false, -1, "", 0, [], ∅⟩) rfl (fun _ _ hd => by cases hd) (by decide)
  refine ⟨{ s with timerName := "Performance Timings:" }, ?_,
    h.numBegins, h.callgraph, h.nodup, h.user, h.global, h.entry⟩
  rw [hbegin]
  rfl

theorem init_tracks (name : String) (t₀ : ℚ) (h : s.callgraph.length ≤ 1) :
    ∃ s', s.init name t₀ = .ok s' ∧
      Tracks t₀ [] t₀ (fun _ => 0) (fun _ => 0) (fun _ => 0) s' :=
  begin_gtimer_tracks t₀ rfl (cleared_map _) h

/-! ### The sum over all keys -/

/-- The keys begun by a sequence of calls. -/
def begunIds (calls : List (ℚ × Call)) : List TimerId :=
  calls.filterMap fun e => match e.2 with
    | .beginTimer id => some id
    | .endTimer _ => none

/-- The keys of the user timers an object knows. -/
def userIds (s : Timer) : List TimerId :=
  (s.timerMap.toList.filter fun e => e.1 ≠ gtimer).map Prod.fst

theorem mem_userIds : id ∈ userIds s ↔ id ≠ gtimer ∧ ∃ d, s.timerMap[id]? = some d := by
  simp only [userIds, List.mem_map, List.mem_filter, Prod.exists, exists_and_right,
    exists_eq_right, TreeMap.mem_toList_iff_getElem?_eq_some, decide_eq_true_eq]
  exact and_comm

theorem nodup_userIds (s : Timer) : (userIds s).Nodup := by
  have hkeys : (s.timerMap.toList.map Prod.fst).Nodup := by
    rw [TreeMap.map_fst_toList_eq_keys]
    exact TreeMap.nodup_keys
  exact hkeys.sublist (List.filter_sublist.map _)

theorem subtime_eq_sum_timing (s : Timer) :
    s.subtime = ((userIds s).map fun id => s.timing TimerData.timings0 id).sum := by
  rw [Timer.subtime, userIds, List.map_map]
  congr 1
  apply List.map_congr_left
  rintro ⟨id, d⟩ hmem
  have hd : s.timerMap[id]? = some d :=
    TreeMap.mem_toList_iff_getElem?_eq_some.mp (List.mem_of_mem_filter hmem)
  simp [Timer.timing, hd]

theorem subtime_eq_sum (s : Timer) :
    s.subtime = ∑ id ∈ (userIds s).toFinset, s.timing TimerData.timings0 id := by
  rw [List.sum_toFinset _ (nodup_userIds s)]
  exact subtime_eq_sum_timing s

theorem mem_of_visited {opened opened' : List TimerId} {calls : List (ℚ × Call)}
    (h : opened' ∈ visited stepOpen opened calls) (hid : id ∈ opened') :
    id ∈ opened ∨ id ∈ begunIds calls := by
  induction calls generalizing opened with
  | nil => cases h
  | cons event calls ih =>
      obtain ⟨t', c⟩ := event
      rcases List.mem_cons.mp h with rfl | h
      · exact Or.inl hid
      · cases c with
        | beginTimer x =>
            rcases ih h with hmem | hmem
            · rcases List.mem_cons.mp hmem with rfl | hmem
              · exact Or.inr (by simp [begunIds])
              · exact Or.inl hmem
            · exact Or.inr (by simpa [begunIds] using Or.inr hmem)
        | endTimer x =>
            rcases ih h with hmem | hmem
            · exact Or.inl (List.mem_of_mem_tail hmem)
            · exact Or.inr (by simpa [begunIds] using hmem)

theorem userId_of_begun {opened : List TimerId} {calls : List (ℚ × Call)}
    (h : WellNested opened calls) (hid : id ∈ begunIds calls) : UserId id := by
  induction calls generalizing opened with
  | nil => cases hid
  | cons event calls ih =>
      obtain ⟨t', c⟩ := event
      cases c with
      | beginTimer x =>
          obtain ⟨huser, -, hnest⟩ := h
          have hmem : id = x ∨ id ∈ begunIds calls := by simpa [begunIds] using hid
          rcases hmem with rfl | hmem
          · exact huser
          · exact ih hnest hmem
      | endTimer x => exact ih h.2 (by simpa [begunIds] using hid)

/-- The exclusive times of the keys begun add up to the busy time, and no other
key has any. -/
theorem sum_exclusiveTime {calls : List (ℚ × Call)} {ids : Finset TimerId}
    (h : ∀ id ∈ begunIds calls, id ∉ ids → exclusiveTime id [] t calls = 0) :
    ∑ id ∈ ids, exclusiveTime id [] t calls = busyTime [] t calls := by
  have hall : ∑ id ∈ ids ∪ (begunIds calls).toFinset, exclusiveTime id [] t calls =
      busyTime [] t calls := by
    apply sum_timeIn
    intro opened hopened x
    cases opened with
    | nil => simp
    | cons y rest =>
        have hy : y ∈ ids ∪ (begunIds calls).toFinset := by
          rcases mem_of_visited hopened List.mem_cons_self with hmem | hmem
          · cases hmem
          · exact Finset.mem_union_right _ (List.mem_toFinset.mpr hmem)
        simp [Finset.sum_ite_eq, hy]
  rw [← hall]
  apply Finset.sum_subset Finset.subset_union_left
  intro id hid hnot
  rcases Finset.mem_union.mp hid with hmem | hmem
  · exact absurd hmem hnot
  · exact h id (List.mem_toFinset.mp hmem) hnot

/-! ### What a closed object says -/

/-- The object `s` says what the calls made since `t₀` should measure, and the
global timer's total, taken at any later time, is not exceeded. -/
structure Accounted (t₀ : ℚ) (calls : List (ℚ × Call)) (s : Timer) : Prop where
  exclusive : ∀ id, id ≠ gtimer →
    s.timing TimerData.timings0 id = exclusiveTime id [] t₀ calls
  inclusive : ∀ id, id ≠ gtimer →
    s.timing TimerData.timingsInc0 id = inclusiveTime id [] t₀ calls
  count : ∀ id, id ≠ gtimer → s.statsCount id = closedIntervals id calls
  sum : s.subtime = busyTime [] t₀ calls
  total : ∀ t, endTime t₀ calls ≤ t → ∃ messages s', s.finalize t = .ok (messages, s') ∧
    s.subtime ≤ s'.timing TimerData.timings0 gtimer

/-- `Finalize` gives the global timer all the time since the start. -/
theorem Tracks.finalize {excl incl : TimerId → ℚ} {n : TimerId → ℕ}
    (h : Tracks t₀ [] t excl incl n s) (t' : ℚ) :
    ∃ messages s', s.finalize t' = .ok (messages, s') ∧
      s'.timing TimerData.timings0 gtimer = t' - t₀ := by
  obtain ⟨d, hd, h0, h1, hacc⟩ := h.global
  obtain ⟨base, hgraph⟩ := h.callgraph
  have hchar : secondChar gtimer = some 82 := by decide +kernel
  have hbegins : ¬s.numBegins > 2 := by
    rw [h.numBegins, List.length_nil]
    omega
  refine ⟨[], { s with
    callgraph := []
    timerMap := s.timerMap.insert gtimer (d.finish t')
    numBegins := s.numBegins - 1
    timerFinalize := t'
    finalized := true }, ?_, ?_⟩
  · simp only [Timer.finalize, Timer.endTimer, Timer.stopTimer, hd, hchar, Timer.leaveTimer,
      hgraph, Timer.onSurrounding, if_neg hbegins, bind, Except.bind]
    rfl
  · simp [Timer.timing, TimerData.finish, TimerData.increment, h0, h1, hacc]

theorem Tracks.accounted {calls : List (ℚ × Call)} (hnest : WellNested [] calls)
    (hclock : Chronological t₀ calls)
    (h : Tracks t₀ [] (endTime t₀ calls) (fun id => exclusiveTime id [] t₀ calls)
      (fun id => inclusiveTime id [] t₀ calls) (fun id => closedIntervals id calls) s) :
    Accounted t₀ calls s := by
  have hbook : ∀ id, id ≠ gtimer →
      s.timing TimerData.timings0 id = exclusiveTime id [] t₀ calls ∧
      s.timing TimerData.timingsInc0 id = inclusiveTime id [] t₀ calls ∧
      s.statsCount id = closedIntervals id calls := by
    intro id hid
    have hentry := h.entry id hid
    cases hmap : s.timerMap[id]? with
    | none =>
        rw [hmap] at hentry
        obtain ⟨-, he, hi, hk⟩ := hentry
        simp [Timer.timing, Timer.statsCount, hmap, he, hi, hk]
    | some d =>
        rw [hmap] at hentry
        obtain ⟨he, hi, hk⟩ := hentry
        rw [if_neg List.not_mem_nil, add_zero] at he hi
        simp [Timer.timing, Timer.statsCount, hmap, he, hi, hk]
  have hsum : s.subtime = busyTime [] t₀ calls := by
    rw [subtime_eq_sum]
    calc ∑ id ∈ (userIds s).toFinset, s.timing TimerData.timings0 id
        = ∑ id ∈ (userIds s).toFinset, exclusiveTime id [] t₀ calls := by
          apply Finset.sum_congr rfl
          intro id hid
          exact (hbook id (mem_userIds.mp (List.mem_toFinset.mp hid)).1).1
      _ = busyTime [] t₀ calls := by
          apply sum_exclusiveTime
          intro id hbegun hnot
          have huser := (userId_of_begun hnest hbegun).2.2
          rw [List.mem_toFinset, mem_userIds, not_and] at hnot
          -- a key the map does not know has nothing booked
          rw [← (hbook id huser).1, Timer.timing]
          cases hmap : s.timerMap[id]? with
          | none => rfl
          | some d => exact absurd ⟨d, hmap⟩ (hnot huser)
  refine ⟨fun id hid => (hbook id hid).1, fun id hid => (hbook id hid).2.1,
    fun id hid => (hbook id hid).2.2, hsum, fun t ht => ?_⟩
  obtain ⟨messages, s', hfinal, htotal⟩ := h.finalize t
  refine ⟨messages, s', hfinal, ?_⟩
  calc s.subtime = busyTime [] t₀ calls := hsum
    _ ≤ endTime t₀ calls - t₀ := timeIn_le hclock
    _ ≤ t - t₀ := sub_le_sub_right ht t₀
    _ = s'.timing TimerData.timings0 gtimer := htotal.symm

/-- From here on every well-nested sequence of calls is measured correctly. -/
def Accurate (t₀ : ℚ) (s : Timer) : Prop :=
  ∀ calls, WellNested [] calls → Chronological t₀ calls →
    ∃ s', s.run calls = .ok s' ∧ Accounted t₀ calls s'

theorem Tracks.accurate
    (h : Tracks t₀ [] t₀ (fun _ => 0) (fun _ => 0) (fun _ => 0) s) : Accurate t₀ s := by
  intro calls hnest hclock
  obtain ⟨s', hrun, h'⟩ := run_tracks h hnest
  refine ⟨s', hrun, Tracks.accounted hnest hclock ?_⟩
  simpa using h'

/-! ### Objects with keys left on the callgraph -/

/-- A string of `k + 1` letters. -/
def letters (k : ℕ) : TimerId := List.replicate (k + 1) 97

theorem letters_injective {j k : ℕ} (h : letters j = letters k) : j = k := by
  have hlen := congrArg List.length h
  simpa [letters] using hlen

theorem letters_ne {k : ℕ} {x : TimerId} (h : x.length ≤ k) : letters k ≠ x := by
  rintro rfl
  rw [letters, List.length_replicate] at h
  omega

theorem userId_letters (k : ℕ) : UserId (letters k) := by
  refine ⟨by simp [letters, List.replicate_succ], fun c hc => ?_, fun h => ?_⟩
  · rw [letters] at hc
    rw [List.eq_of_mem_replicate hc]
    decide
  · have hhead : (letters k).head? = gtimer.head? := by rw [h]
    have hg : gtimer.head? = some 71 := by decide +kernel
    rw [hg] at hhead
    simp [letters, List.replicate_succ] at hhead

/-- One timer embedded in another for one unit of time. -/
def embedded (outer inner : TimerId) (t : ℚ) : List (ℚ × Call) :=
  [(t, .beginTimer outer), (t, .beginTimer inner), (t + 1, .endTimer inner),
    (t + 1, .endTimer outer)]

theorem wellNested_embedded {outer inner : TimerId} (houter : UserId outer)
    (hinner : UserId inner) (hne : inner ≠ outer) (t : ℚ) :
    WellNested [] (embedded outer inner t) := by
  simp [embedded, WellNested, houter, hinner, hne]

theorem exclusiveTime_embedded {outer inner : TimerId} (hne : inner ≠ outer) (t : ℚ) :
    exclusiveTime outer [] t (embedded outer inner t) = 0 := by
  simp [exclusiveTime, embedded, timeIn, stepOpen, hne]

/-- The data of a timer that is running since `t` and was never paused. -/
def Unpaused (t : ℚ) (id : TimerId) (s : Timer) : Prop :=
  ∃ d, s.timerMap[id]? = some d ∧ d.timings0 = 0 ∧ d.timings1 = t ∧ d.accumulated = 0

theorem run_cons_ok {c : Call} {calls : List (ℚ × Call)}
    (h : s.run ((t, c) :: calls) = .ok s') :
    ∃ s₁, s.call t c = .ok s₁ ∧ s₁.run calls = .ok s' := by
  rw [Timer.run] at h
  exact exists_of_bind_eq_ok h

theorem call_endTimer_inv {d : TimerData} (huser : UserId id) (hd : s.timerMap[id]? = some d)
    (h : s.call t (.endTimer id) = .ok s') : Timer.Ended id t d s s' := by
  obtain ⟨c, hc, hpos⟩ := secondChar_of_userId huser
  cases hend : s.endTimer id t with
  | error e => simp [Timer.call, hend, bind, Except.bind] at h
  | ok result =>
      obtain ⟨messages, s₁⟩ := result
      simp only [Timer.call, hend, bind, Except.bind, Except.ok.injEq] at h
      exact h ▸ Timer.endTimer_inv hd hc hpos hend

section Unpaused

variable {id' : TimerId} {d : TimerData} {t' : ℚ}

/-- A timer that begins is not paused unless its key is on top. -/
theorem unpaused_begun (hbegun : Timer.Begun id t s s') (hhead : s.callgraph.head? ≠ some id)
    (hclear : Cleared s) : Unpaused t id s' := by
  have hdata : Timer.surroundingData (.pause t) { s with numBegins := s.numBegins + 1 } id =
      s.timerMap[id]? := Timer.surroundingData_of_head_ne hhead
  refine ⟨_, hbegun.self, ?_, ?_, ?_⟩
  all_goals
    rw [hdata]
    cases hd : s.timerMap[id]? with
    | none => rfl
    | some d => first | exact (hclear _ _ hd).1 | rfl

/-- Another timer that begins pauses only the one on top. -/
theorem Unpaused.begun (h : Unpaused t id s) (hbegun : Timer.Begun id' t' s s') (hne : id' ≠ id)
    (hhead : s.callgraph.head? ≠ some id) : Unpaused t id s' := by
  obtain ⟨d, hd, hrest⟩ := h
  refine ⟨d, ?_, hrest⟩
  rw [hbegun.other id (Ne.symm hne), Timer.surroundingData_of_head_ne]
  · exact hd
  · exact hhead

/-- Another timer that ends resumes only the one on top. -/
theorem Unpaused.ended (h : Unpaused t id s) (hended : Timer.Ended id' t' d s s')
    (hne : id' ≠ id) (hhead : s.callgraph.tail.head? ≠ some id) : Unpaused t id s' := by
  obtain ⟨d', hd', hrest⟩ := h
  refine ⟨d', ?_, hrest⟩
  rw [hended.timerMap, Timer.surroundingData_of_head_ne]
  · exact (getElem?_insert_of_ne (Ne.symm hne)).trans hd'
  · exact hhead

end Unpaused

/-- With two keys left on the callgraph an outer timer that is neither of them is
not paused for an inner one, and books the time of both. -/
theorem embedded_unpaused {outer inner x y : TimerId} {rest : List TimerId}
    (houter : UserId outer) (hinner : UserId inner) (hne : inner ≠ outer) (hx : outer ≠ x)
    (hy : outer ≠ y) (hbegins : s.numBegins = 1) (hgraph : s.callgraph = x :: y :: rest)
    (hclear : Cleared s) (h : s.run (embedded outer inner t) = .ok s') :
    ∃ d, s'.timerMap[outer]? = some d ∧ d.timings0 = 1 ∧ d.timings1 = -1 := by
  obtain ⟨s₁, hcall₁, h⟩ := run_cons_ok h
  obtain ⟨s₂, hcall₂, h⟩ := run_cons_ok h
  obtain ⟨s₃, hcall₃, h⟩ := run_cons_ok h
  obtain ⟨s₄, hcall₄, h⟩ := run_cons_ok h
  cases h
  have hxhead : (x :: y :: rest).head? ≠ some outer := fun heq => hx (Option.some.inj heq).symm
  have hyhead : (y :: rest).head? ≠ some outer := fun heq => hy (Option.some.inj heq).symm
  -- the outer timer starts, with its key off the callgraph
  have hbegun₁ := Timer.beginTimer_inv hcall₁
  have hrun₁ : Unpaused t outer s₁ := unpaused_begun hbegun₁ (hgraph ▸ hxhead) hclear
  have hgraph₁ : s₁.callgraph = x :: y :: rest := by
    rw [hbegun₁.callgraph, hgraph, if_neg]
    rw [hbegins, asSize_of_nonneg (by omega), List.length_cons, List.length_cons]
    omega
  -- the inner timer starts: the key on top is paused
  have hbegun₂ := Timer.beginTimer_inv hcall₂
  have hrun₂ : Unpaused t outer s₂ := hrun₁.begun hbegun₂ hne (hgraph₁ ▸ hxhead)
  have htail : s₂.callgraph.tail.head? ≠ some outer := by
    rw [hbegun₂.callgraph, hgraph₁]
    split
    · exact hxhead
    · exact hyhead
  -- the inner timer ends: one of the two keys is resumed
  have hended₃ := call_endTimer_inv hinner hbegun₂.self hcall₃
  have hrun₃ : Unpaused t outer s₃ := hrun₂.ended hended₃ hne htail
  -- the outer timer ends
  obtain ⟨d, hd, h0, h1, hacc⟩ := hrun₃
  have hended₄ := call_endTimer_inv houter hd hcall₄
  have hend : s'.timerMap[outer]? = some (d.finish (t + 1)) := by
    rw [hended₄.timerMap, Timer.surroundingData, if_neg, Timer.popped]
    · exact TreeMap.getElem?_insert_self
    · rintro ⟨htwo, -⟩
      change 2 < s₃.numBegins at htwo
      rw [hended₃.numBegins, hbegun₂.numBegins, hbegun₁.numBegins, hbegins] at htwo
      omega
  exact ⟨_, hend, by simp [TimerData.finish, TimerData.increment, h0, h1, hacc], rfl⟩

theorem not_accurate_of_leftover {name : String} {used : Timer} {x y : TimerId}
    {rest : List TimerId} (hgraph : used.callgraph = x :: y :: rest)
    (hinit : used.init name t = .ok s) : ¬Accurate t s := by
  intro haccurate
  obtain ⟨s₁, hbegin, hclear, hbegins, hgraph₁⟩ := Cleared.begin_gtimer
    (cleared_map { used with initialized := true, timerName := name }) rfl t
  obtain rfl : s₁ = s := by
    rw [Timer.init, Timer.reset, hbegin] at hinit
    exact Except.ok.inj hinit
  have hleft : s₁.callgraph = x :: y :: rest := by
    rw [hgraph₁, if_neg (by simp [hgraph]), ← hgraph]
  have houter := userId_letters (x.length + y.length)
  have hinner := userId_letters (x.length + y.length + 1)
  have hne : letters (x.length + y.length + 1) ≠ letters (x.length + y.length) :=
    fun h => absurd (letters_injective h) (by omega)
  obtain ⟨s', hrun, haccount⟩ := haccurate _ (wellNested_embedded houter hinner hne t)
    (by simp [embedded, Chronological])
  obtain ⟨d, hd, hone, -⟩ := embedded_unpaused houter hinner hne
    (letters_ne (Nat.le_add_right _ _)) (letters_ne (Nat.le_add_left _ _)) hbegins hleft hclear hrun
  have htime := haccount.exclusive _ houter.2.2
  rw [exclusiveTime_embedded hne, Timer.timing, hd] at htime
  exact zero_ne_one (htime.symm.trans hone)

/-- **Accounting.** A new timer object measures every well-nested sequence of
calls, and an object on which `Init` was called does so if and only if its
callgraph held at most one key, so that no user timer was open. -/
theorem accurate_iff (name : String) (t₀ : ℚ) (used : Timer) :
    (∃ s, Timer.construct t₀ = .ok s ∧ Accurate t₀ s) ∧
      ((∃ s, used.init name t₀ = .ok s ∧ Accurate t₀ s) ↔ used.callgraph.length ≤ 1) := by
  constructor
  · obtain ⟨s, hs, htracks⟩ := construct_tracks t₀
    exact ⟨s, hs, htracks.accurate⟩
  constructor
  · rintro ⟨s, hinit, haccurate⟩
    by_contra hlen
    match hgraph : used.callgraph with
    | [] => simp [hgraph] at hlen
    | [_] => simp [hgraph] at hlen
    | x :: y :: rest =>
        exact not_accurate_of_leftover hgraph hinit haccurate
  · intro hlen
    obtain ⟨s, hs, htracks⟩ := init_tracks name t₀ hlen
    exact ⟨s, hs, htracks.accurate⟩

/-- One timer embedded in another, for one of three units of time. -/
def nestedCalls : List (ℚ × Call) :=
  [(1, .beginTimer (key "b")), (2, .beginTimer (key "c")), (3, .endTimer (key "c")),
    (4, .endTimer (key "b"))]

/-- A timer left open when `Init` is called: the timer begun next is not paused
for the one embedded in it, and its two units of time become three. -/
theorem inaccurate_after_open_timer :
    ∃ new used s s', Timer.construct 0 = .ok new ∧
      new.run [(0, .beginTimer (key "a"))] = .ok used ∧ used.init "x" 1 = .ok s ∧
      WellNested [] nestedCalls ∧ Chronological 1 nestedCalls ∧ s.run nestedCalls = .ok s' ∧
      s'.timing TimerData.timings0 (key "b") = 3 ∧
      exclusiveTime (key "b") [] 1 nestedCalls = 2 := by
  have hnew : ∃ new, Timer.construct 0 = .ok new ∧
      (new.run [(0, .beginTimer (key "a"))]).toOption.any (fun used =>
        (used.init "x" 1).toOption.any fun s =>
          (s.run nestedCalls).toOption.any fun s' =>
            decide (s'.timing TimerData.timings0 (key "b") = 3)) = true :=
    exists_ok_of_any (by decide +kernel)
  obtain ⟨new, hconstruct, hnew⟩ := hnew
  obtain ⟨used, hused, hnew⟩ := exists_ok_of_any hnew
  obtain ⟨s, hinit, hnew⟩ := exists_ok_of_any hnew
  obtain ⟨s', hrun, hthree⟩ := exists_ok_of_any hnew
  refine ⟨new, used, s, s', hconstruct, hused, hinit, by decide +kernel, ?_, hrun,
    of_decide_eq_true hthree, by decide +kernel⟩
  exact ⟨by decide +kernel, by decide +kernel, by decide +kernel, by decide +kernel, trivial⟩

end Grvy.Timing
