import Grvy.Timing.Summary

/-!
The calls a program can make on a timer object, in any order.

`EndTimer` of an empty key that has data reads the byte behind the key. What
it reads is a parameter of the call here, so that a run goes on after it. Then
no call fails: the callgraph is at least as deep as the count of active timers,
which may become negative, and each key on it has data.
-/

namespace Grvy.Timing

open Std (TreeMap)
open Grvy.Lib

/-! ### Calls -/

/-- One call of a program. -/
inductive Op
  | init (name : String)
  | beginTimer (id : TimerId)
  /-- `past` is the byte behind the key. -/
  | endTimer (id : TimerId) (past : Int8)
  | reset
  | finalize
  | summarize
  | elapsedSeconds (id : TimerId) (exclusive : Bool)
  | elapsedGlobal
  deriving DecidableEq, Repr

/-- `index->first[1]` with `past` behind an empty key. -/
def charAt1 (past : Int8) (id : TimerId) : Int8 := (secondChar id).getD past

namespace Timer

/-- `EndTimer` with `past` behind an empty key. -/
def endTimerPast (past : Int8) (id : TimerId) (mytime : ℚ) (s : Timer) :
    Except Misuse (List Message × Timer) :=
  match secondChar id, s.timerMap[id]? with
  | none, some d =>
      if past < 0 then
        .ok ([{ func := "EndTimer", text := "No matching begin timer call for", id := id }], s)
      else
        leaveTimer id mytime { s with timerMap := s.timerMap.insert id (d.finish mytime) }
  | _, _ => s.endTimer id mytime

def elapsedSeconds (id : TimerId) (exclusive : Bool) (s : Timer) : List Message × ℚ :=
  match s.timerMap[id]? with
  | none =>
      ([{ func := "ElapsedSeconds", text := "No timer data available for", id := id }], 0)
  | some d =>
      if d.timings1 > 0 then
        ([{ func := "ElapsedSeconds", text := "Timer still active for", id := id }], 0)
      else
        ([], if exclusive then d.timings0 else d.timingsInc0)

/-- After `Finalize`, the time since the last end of the global timer is added. -/
def elapsedGlobal (mytime : ℚ) (s : Timer) : List Message × ℚ :=
  let since := if s.timerFinalize > 0 then mytime - s.timerFinalize else 0
  match s.timerMap[gtimer]? with
  | none =>
      ([{ func := "ElapsedGlobal", text := "No timer data available for", id := gtimer }], since)
  | some g => ([], (if g.timings1 > 0 then mytime - g.timings1 else g.timings0) + since)

/-- One call at a given clock value. What it prints and returns is dropped. -/
def perform (mytime : ℚ) (op : Op) (s : Timer) : Except Misuse Timer :=
  match op with
  | .init name => s.init name mytime
  | .beginTimer id => s.beginTimer id mytime
  | .endTimer id past => do
      let (_, s) ← s.endTimerPast past id mytime
      .ok s
  | .reset => s.reset mytime
  | .finalize => do
      let (_, s) ← s.finalize mytime
      .ok s
  | .summarize => do
      let (_, _, s) ← s.summarize mytime
      .ok s
  | .elapsedSeconds _ _ => .ok s
  | .elapsedGlobal => .ok s

def performAll : List (ℚ × Op) → Timer → Except Misuse Timer
  | [], s => .ok s
  | (mytime, op) :: ops, s => do performAll ops (← s.perform mytime op)

end Timer

variable {t mytime : ℚ} {s s' : Timer} {id : TimerId} {past c : Int8} {messages : List Message}
  {ops : List (ℚ × Op)} {op : Op}

theorem performAll_cons_ok (h : s.performAll ((t, op) :: ops) = .ok s') :
    ∃ s₁, s.perform t op = .ok s₁ ∧ s₁.performAll ops = .ok s' := by
  rw [Timer.performAll] at h
  exact exists_of_bind_eq_ok h

/-! ### What EndTimer does -/

/-- What is left of `EndTimer` for the global key: the raw timer value is stored. -/
def stamp (id : TimerId) (mytime : ℚ) (s : Timer) : Timer :=
  if id = gtimer then { s with timerFinalize := mytime } else s

@[simp] theorem stamp_timerMap : (stamp id t s).timerMap = s.timerMap := by
  rw [stamp]
  split <;> rfl

@[simp] theorem stamp_callgraph : (stamp id t s).callgraph = s.callgraph := by
  rw [stamp]
  split <;> rfl

@[simp] theorem stamp_numBegins : (stamp id t s).numBegins = s.numBegins := by
  rw [stamp]
  split <;> rfl

@[simp] theorem stamp_finalized : (stamp id t s).finalized = s.finalized := by
  rw [stamp]
  split <;> rfl

@[simp] theorem stamp_timerFinalize :
    (stamp id t s).timerFinalize = if id = gtimer then t else s.timerFinalize := by
  rw [stamp]
  split <;> rfl

@[simp] theorem secondChar_gtimer : secondChar gtimer = some 82 := by decide +kernel

theorem charAt1_gtimer (past : Int8) : ¬charAt1 past gtimer < 0 := by
  rw [charAt1, secondChar_gtimer]
  change ¬(82 : Int8) < 0
  decide

theorem secondChar_eq_none : secondChar id = none ↔ id = [] := by
  match id with
  | [] => exact iff_of_true rfl rfl
  | [_] => exact iff_of_false (by simp [secondChar]) (by simp)
  | _ :: _ :: _ => exact iff_of_false (by simp [secondChar]) (by simp)

theorem ne_gtimer_of_secondChar (h : secondChar id = none) : id ≠ gtimer := by
  rintro rfl
  rw [secondChar_gtimer] at h
  cases h

/-- A key without data. -/
theorem endTimerPast_unknown (past : Int8) (t : ℚ) (hd : s.timerMap[id]? = none) :
    s.endTimerPast past id t =
      .ok ([{ func := "EndTimer", text := "No timer data available for", id := id }],
        stamp id t s) := by
  cases hc : secondChar id <;>
    simp [Timer.endTimerPast, Timer.endTimer, Timer.stopTimer, hc, hd, stamp, bind, Except.bind]

/-- A key with data and a negative second character. -/
theorem endTimerPast_refused {d : TimerData} (t : ℚ) (hd : s.timerMap[id]? = some d)
    (hc : charAt1 past id < 0) :
    s.endTimerPast past id t =
      .ok ([{ func := "EndTimer", text := "No matching begin timer call for", id := id }], s) := by
  have hne : id ≠ gtimer := by
    rintro rfl
    exact charAt1_gtimer past hc
  rw [charAt1] at hc
  cases hchar : secondChar id with
  | none =>
      rw [hchar, Option.getD_none] at hc
      simp only [Timer.endTimerPast, hchar, hd, if_pos hc]
  | some c =>
      rw [hchar, Option.getD_some] at hc
      simp [Timer.endTimerPast, Timer.endTimer, Timer.stopTimer, hchar, hd, if_pos hc, hne, bind,
        Except.bind]

/-- Any other key with data. -/
theorem endTimerPast_accepted {d : TimerData} (t : ℚ) (hd : s.timerMap[id]? = some d)
    (hc : ¬charAt1 past id < 0) :
    s.endTimerPast past id t =
      (Timer.leaveTimer id t { s with timerMap := s.timerMap.insert id (d.finish t) } >>=
        fun r => .ok (r.1, stamp id t r.2)) := by
  rw [charAt1] at hc
  cases hchar : secondChar id with
  | none =>
      rw [hchar, Option.getD_none] at hc
      simp only [Timer.endTimerPast, hchar, hd, stamp, if_neg (ne_gtimer_of_secondChar hchar),
        if_neg hc]
      cases Timer.leaveTimer id t { s with timerMap := s.timerMap.insert id (d.finish t) } <;> rfl
  | some c =>
      rw [hchar, Option.getD_some] at hc
      simp only [Timer.endTimerPast, Timer.endTimer, Timer.stopTimer, hchar, hd, stamp, if_neg hc]

/-- The message of an `EndTimer` that finds no callgraph to pop. -/
def noCallgraph (id : TimerId) : Message :=
  { func := "EndTimer", text := "no callgraph left for", id := id }

/-- What `EndTimer` does to a key that passes its tests. -/
structure Accepted (id : TimerId) (t : ℚ) (d : TimerData) (s : Timer) (messages : List Message)
    (s' : Timer) : Prop extends Timer.Ended id t d s s' where
  finalized : s'.finalized = s.finalized
  timerFinalize : s'.timerFinalize = if id = gtimer then t else s.timerFinalize
  messages : messages = if s.callgraph = [] then [noCallgraph id] else []

theorem endTimerPast_isOk (past : Int8) (t : ℚ) {d : TimerData} (hd : s.timerMap[id]? = some d)
    (hc : ¬charAt1 past id < 0) (h : (s.popped id (d.finish t)).HasSurrounding) :
    ∃ messages s', s.endTimerPast past id t = .ok (messages, s') := by
  obtain ⟨s₁, hact⟩ := Timer.onSurrounding_isOk_iff (f := .resume t).mpr h
  have hresume : Timer.onSurrounding (Timer.resumeTimer t) (s.popped id (d.finish t)) = .ok s₁ :=
    hact
  rw [Timer.popped] at hresume
  rw [endTimerPast_accepted t hd hc, Timer.leaveTimer, hresume]
  exact ⟨_, _, rfl⟩

theorem endTimerPast_inv {d : TimerData} (hd : s.timerMap[id]? = some d)
    (hc : ¬charAt1 past id < 0) (h : s.endTimerPast past id t = .ok (messages, s')) :
    Accepted id t d s messages s' := by
  rw [endTimerPast_accepted t hd hc] at h
  obtain ⟨⟨msgs, s₁⟩, hleave, h⟩ := exists_of_bind_eq_ok h
  rw [Timer.leaveTimer] at hleave
  obtain ⟨s₂, hact, hleave⟩ := exists_of_bind_eq_ok hleave
  obtain ⟨m, rfl, hm⟩ := Timer.onSurrounding_inv (f := .resume t) hact
  simp only [Except.ok.injEq, Prod.mk.injEq] at hleave h
  obtain ⟨rfl, rfl⟩ := hleave
  obtain ⟨rfl, rfl⟩ := h
  have hended : Timer.Ended id t d s (stamp id t
      { s with callgraph := s.callgraph.tail, timerMap := m, numBegins := s.numBegins - 1 }) := by
    refine ⟨by simp, by simp, fun id' => ?_⟩
    rw [stamp_timerMap]
    exact hm id'
  refine ⟨hended, by simp, stamp_timerFinalize, ?_⟩
  cases s.callgraph <;> rfl

/-- The key that is ended has one more sample, whether it is resumed or not. -/
theorem Accepted.samples {d : TimerData} {messages : List Message}
    (hd : s.timerMap[id]? = some d) (h : Accepted id t d s messages s') :
    ∃ x, s'.samples id = x :: s.samples id := by
  have hold : s.samples id = d.stats := by simp [Timer.samples, hd]
  have hmap := h.timerMap id
  have hpop : (s.popped id (d.finish t)).timerMap[id]? = some (d.finish t) := by
    rw [Timer.popped, TreeMap.getElem?_insert_self]
  rw [Timer.surroundingData, hpop] at hmap
  refine ⟨d.increment t, ?_⟩
  rw [hold, Timer.samples, hmap]
  split <;> rfl

/-- The three cases of `EndTimer`. -/
theorem endTimerPast_cases (h : s.endTimerPast past id t = .ok (messages, s')) :
    (s.timerMap[id]? = none ∧ messages ≠ [] ∧ s' = stamp id t s) ∨
      (∃ d, s.timerMap[id]? = some d ∧ charAt1 past id < 0 ∧ messages ≠ [] ∧ s' = s) ∨
      ∃ d, s.timerMap[id]? = some d ∧ ¬charAt1 past id < 0 ∧ Accepted id t d s messages s' := by
  cases hd : s.timerMap[id]? with
  | none =>
      rw [endTimerPast_unknown past t hd, Except.ok.injEq, Prod.mk.injEq] at h
      obtain ⟨rfl, rfl⟩ := h
      exact Or.inl ⟨rfl, List.cons_ne_nil _ _, rfl⟩
  | some d =>
      by_cases hc : charAt1 past id < 0
      · rw [endTimerPast_refused t hd hc, Except.ok.injEq, Prod.mk.injEq] at h
        obtain ⟨rfl, rfl⟩ := h
        exact Or.inr (Or.inl ⟨d, rfl, hc, List.cons_ne_nil _ _, rfl⟩)
      · exact Or.inr (Or.inr ⟨d, rfl, hc, endTimerPast_inv hd hc h⟩)

theorem perform_endTimer_ok (h : s.perform t (.endTimer id past) = .ok s') :
    ∃ messages, s.endTimerPast past id t = .ok (messages, s') := by
  rw [Timer.perform] at h
  obtain ⟨⟨messages, s₁⟩, hend, h⟩ := exists_of_bind_eq_ok h
  obtain rfl := Except.ok.inj h
  exact ⟨messages, hend⟩

theorem beginTimer_frame (h : s.beginTimer id t = .ok s') :
    s'.finalized = s.finalized ∧ s'.timerFinalize = s.timerFinalize := by
  rw [Timer.beginTimer] at h
  obtain ⟨s₁, hact, h⟩ := exists_of_bind_eq_ok h
  obtain ⟨m, rfl, -⟩ := Timer.onSurrounding_inv (f := .pause t) hact
  obtain rfl := Except.ok.inj h
  exact ⟨rfl, rfl⟩

/-! ### Finalize and Summarize in terms of EndTimer -/

theorem endTimer_gtimer (past : Int8) (t : ℚ) (s : Timer) :
    s.endTimer gtimer t = s.endTimerPast past gtimer t := by
  simp only [Timer.endTimerPast, secondChar_gtimer]

theorem perform_finalize (t : ℚ) (s : Timer) :
    s.perform t .finalize = (s.perform t (.endTimer gtimer 0) >>= fun s =>
      .ok { s with finalized := true }) := by
  rw [Timer.perform, Timer.perform, Timer.finalize, endTimer_gtimer 0]
  cases s.endTimerPast 0 gtimer t <;> rfl

/-- `Summarize` finalizes first unless that was done, and then changes nothing. -/
theorem perform_summarize (t : ℚ) (s : Timer) :
    s.perform t .summarize =
      ((if s.finalized then .ok s else s.perform t .finalize) >>= fun s =>
        s.report >>= fun r => .ok r.2) := by
  rw [Timer.perform, Timer.perform, Timer.summarize]
  split
  · cases hreport : s.report <;> simp [hreport, bind, Except.bind]
  · cases s.finalize t with
    | error e => rfl
    | ok r => cases hreport : r.2.report <;> simp [hreport, bind, Except.bind]

/-! ### Keys with data -/

/-- The key has timer data. -/
def Known (s : Timer) (id : TimerId) : Prop := ∃ d, s.timerMap[id]? = some d

theorem surroundingData_known (f : TimerData → TimerData) (h : Known s id) :
    ∃ d, s.surroundingData f id = some d := by
  obtain ⟨d, hd⟩ := h
  rw [Timer.surroundingData, hd]
  split
  · exact ⟨_, rfl⟩
  · exact ⟨_, rfl⟩

theorem Known.begun {id' : TimerId} (h : Known s id') (hbegun : Timer.Begun id t s s') :
    Known s' id' := by
  by_cases heq : id' = id
  · exact ⟨_, heq ▸ hbegun.self⟩
  · have hdata := surroundingData_known (s := { s with numBegins := s.numBegins + 1 })
      (TimerData.pause t) h
    rw [← hbegun.other id' heq] at hdata
    exact hdata

theorem Known.popped {id' : TimerId} (h : Known s id') (id : TimerId) (d : TimerData) :
    Known (s.popped id d) id' := by
  by_cases heq : id' = id
  · exact ⟨d, by rw [heq, Timer.popped, TreeMap.getElem?_insert_self]⟩
  · obtain ⟨d', hd'⟩ := h
    exact ⟨d', by rw [Timer.popped, getElem?_insert_of_ne heq, hd']⟩

theorem Known.ended {id' : TimerId} {d : TimerData} (h : Known s id')
    (hended : Timer.Ended id t d s s') : Known s' id' := by
  have hdata := surroundingData_known (TimerData.resume t) (h.popped id (d.finish t))
  rw [← hended.timerMap] at hdata
  exact hdata

theorem Known.cleared (h : Known s id) :
    Known { s with numBegins := 0, timerMap := s.timerMap.map fun _ d => d.clear } id := by
  obtain ⟨d, hd⟩ := h
  exact ⟨d.clear, by rw [TreeMap.getElem?_map, hd]; rfl⟩

theorem Known.reported (h : Known s id) {r : Report} (hreport : s.report = .ok (r, s')) :
    Known s' id := by
  obtain ⟨m, rfl, hm⟩ := report_keeps hreport
  obtain ⟨d, hd⟩ := h
  exact ⟨d, (hm id).trans hd⟩

theorem Known.endedBy {id' : TimerId} (h : Known s id')
    (hend : s.perform t (.endTimer id past) = .ok s') : Known s' id' := by
  obtain ⟨messages, hend⟩ := perform_endTimer_ok hend
  rcases endTimerPast_cases hend with ⟨-, -, rfl⟩ | ⟨-, -, -, -, rfl⟩ | ⟨d, -, -, haccept⟩
  · obtain ⟨d, hd⟩ := h
    exact ⟨d, by rw [stamp_timerMap, hd]⟩
  · exact h
  · exact h.ended haccept.toEnded

theorem Known.finalized (h : Known s id) (hfinal : s.perform t .finalize = .ok s') :
    Known s' id := by
  rw [perform_finalize] at hfinal
  obtain ⟨s₁, hend, hfinal⟩ := exists_of_bind_eq_ok hfinal
  obtain rfl := Except.ok.inj hfinal
  have hended : Known s₁ id := h.endedBy hend
  exact hended

/-- No call takes the data of a key away. -/
theorem Known.perform (h : Known s id) (hop : s.perform t op = .ok s') : Known s' id := by
  cases op with
  | init name =>
      have hnamed : Known { s with initialized := true, timerName := name } id := h
      exact hnamed.cleared.begun (Timer.beginTimer_inv hop)
  | beginTimer id => exact h.begun (Timer.beginTimer_inv hop)
  | endTimer id past => exact h.endedBy hop
  | reset => exact h.cleared.begun (Timer.beginTimer_inv hop)
  | finalize => exact h.finalized hop
  | summarize =>
      rw [perform_summarize] at hop
      obtain ⟨s₁, hfirst, hop⟩ := exists_of_bind_eq_ok hop
      obtain ⟨⟨r, s₂⟩, hreport, hop⟩ := exists_of_bind_eq_ok hop
      obtain rfl := Except.ok.inj hop
      split at hfirst
      · obtain rfl := Except.ok.inj hfirst
        exact h.reported hreport
      · exact (h.finalized hfirst).reported hreport
  | elapsedSeconds id exclusive => exact Except.ok.inj hop ▸ h
  | elapsedGlobal => exact Except.ok.inj hop ▸ h

/-! ### Safety -/

/-- The guard `num_begins > 2` is enough to use the top of the callgraph. -/
structure Sound (s : Timer) : Prop where
  numBegins : s.numBegins ≤ s.callgraph.length
  known : ∀ id ∈ s.callgraph, Known s id
  global : Known s gtimer

/-- With a surrounding timer to pause, the callgraph has a key. -/
theorem Sound.hasSurrounding_next (h : Sound s) :
    Timer.HasSurrounding { s with numBegins := s.numBegins + 1 } := by
  intro htwo
  change 2 < s.numBegins + 1 at htwo
  have hdepth := h.numBegins
  cases hgraph : s.callgraph with
  | nil =>
      rw [hgraph, List.length_nil] at hdepth
      omega
  | cons x rest =>
      obtain ⟨d, hd⟩ := h.known x (by simp [hgraph])
      exact ⟨x, rest, d, rfl, hd⟩

theorem Sound.beginTimer (h : Sound s) (id : TimerId) (t : ℚ) :
    ∃ s', s.beginTimer id t = .ok s' ∧ Sound s' := by
  obtain ⟨s', hbegin⟩ := Timer.beginTimer_isOk id t h.hasSurrounding_next
  have hbegun := Timer.beginTimer_inv hbegin
  refine ⟨s', hbegin, ?_, fun id' hid' => ?_, h.global.begun hbegun⟩
  · -- a key is not pushed only if the callgraph is deep enough without it
    have hdepth := h.numBegins
    rw [hbegun.numBegins, hbegun.callgraph]
    split
    · rw [List.length_cons]
      push_cast
      omega
    · rename_i hnot
      rw [asSize] at hnot
      split at hnot <;> omega
  · have hmem : id' = id ∨ id' ∈ s.callgraph := by
      rw [hbegun.callgraph] at hid'
      split at hid'
      · exact List.mem_cons.mp hid'
      · exact Or.inr hid'
    rcases hmem with rfl | hmem
    · exact ⟨_, hbegun.self⟩
    · exact (h.known id' hmem).begun hbegun

theorem Sound.stamp (h : Sound s) (id : TimerId) (t : ℚ) : Sound (stamp id t s) := by
  rw [Timing.stamp]
  split
  · exact ⟨h.numBegins, h.known, h.global⟩
  · exact h

/-- With a surrounding timer to resume, the callgraph has a second key. -/
theorem Sound.popped_hasSurrounding (h : Sound s) (id : TimerId) (d : TimerData) :
    (s.popped id d).HasSurrounding := by
  intro htwo
  change 2 < s.numBegins at htwo
  have hdepth := h.numBegins
  match hgraph : s.callgraph with
  | [] =>
      rw [hgraph, List.length_nil] at hdepth
      omega
  | [_] =>
      rw [hgraph, List.length_singleton] at hdepth
      omega
  | _ :: x :: rest =>
      obtain ⟨d', hd'⟩ := (h.known x (by simp [hgraph])).popped id d
      exact ⟨x, rest, d', by rw [Timer.popped, hgraph]; rfl, hd'⟩

theorem Sound.ended {d : TimerData} (h : Sound s) (hended : Timer.Ended id t d s s') :
    Sound s' := by
  refine ⟨?_, fun id' hid' => ?_, h.global.ended hended⟩
  · have hdepth := h.numBegins
    rw [hended.numBegins, hended.callgraph, List.length_tail]
    omega
  · rw [hended.callgraph] at hid'
    exact (h.known id' (List.mem_of_mem_tail hid')).ended hended

theorem Sound.endTimerPast (h : Sound s) (past : Int8) (id : TimerId) (t : ℚ) :
    ∃ messages s', s.endTimerPast past id t = .ok (messages, s') ∧ Sound s' := by
  cases hd : s.timerMap[id]? with
  | none => exact ⟨_, _, endTimerPast_unknown past t hd, h.stamp id t⟩
  | some d =>
      by_cases hc : charAt1 past id < 0
      · exact ⟨_, s, endTimerPast_refused t hd hc, h⟩
      · obtain ⟨messages, s', hend⟩ := endTimerPast_isOk past t hd hc
          (h.popped_hasSurrounding id _)
        exact ⟨messages, s', hend, h.ended (endTimerPast_inv hd hc hend).toEnded⟩

theorem Sound.reset (h : Sound s) (t : ℚ) : ∃ s', s.reset t = .ok s' ∧ Sound s' := by
  have hclear : Sound
      { s with numBegins := 0, timerMap := s.timerMap.map fun _ d => d.clear } :=
    ⟨Int.natCast_nonneg _, fun id hid => (h.known id hid).cleared, h.global.cleared⟩
  exact hclear.beginTimer gtimer t

theorem Sound.report (h : Sound s) : ∃ r s', s.report = .ok (r, s') ∧ Sound s' := by
  obtain ⟨g, hg⟩ := h.global
  obtain ⟨r, s', hreport⟩ := report_isOk hg
  obtain ⟨m, hs', -⟩ := report_keeps hreport
  refine ⟨r, s', hreport, ?_, fun id hid => ?_, h.global.reported hreport⟩
  · rw [hs']
    exact h.numBegins
  · rw [hs'] at hid
    exact (h.known id hid).reported hreport

/-- No call on a sound object misuses the callgraph or the map. -/
theorem Sound.perform (h : Sound s) (t : ℚ) (op : Op) :
    ∃ s', s.perform t op = .ok s' ∧ Sound s' := by
  have hend : ∀ id past, ∃ s', s.perform t (.endTimer id past) = .ok s' ∧ Sound s' := by
    intro id past
    obtain ⟨messages, s', hend, hsound⟩ := h.endTimerPast past id t
    exact ⟨s', by simp [Timer.perform, hend, bind, Except.bind], hsound⟩
  have hfinalize : ∃ s', s.perform t .finalize = .ok s' ∧ Sound s' := by
    obtain ⟨s', hs', hsound⟩ := hend gtimer 0
    rw [perform_finalize, hs']
    exact ⟨_, rfl, hsound.numBegins, hsound.known, hsound.global⟩
  cases op with
  | init name =>
      have hnamed : Sound { s with initialized := true, timerName := name } :=
        ⟨h.numBegins, h.known, h.global⟩
      exact hnamed.reset t
  | beginTimer id => exact h.beginTimer id t
  | endTimer id past => exact hend id past
  | reset => exact h.reset t
  | finalize => exact hfinalize
  | summarize =>
      have hfirst : ∃ s₁, (if s.finalized then .ok s else s.perform t .finalize) = .ok s₁ ∧
          Sound s₁ := by
        split
        · exact ⟨s, rfl, h⟩
        · exact hfinalize
      obtain ⟨s₁, hs₁, hsound₁⟩ := hfirst
      obtain ⟨r, s', hreport, hsound⟩ := hsound₁.report
      rw [perform_summarize, hs₁]
      exact ⟨s', by simp [bind, Except.bind, hreport], hsound⟩
  | elapsedSeconds id exclusive => exact ⟨s, rfl, h⟩
  | elapsedGlobal => exact ⟨s, rfl, h⟩

theorem Sound.performAll (h : Sound s) (ops : List (ℚ × Op)) :
    ∃ s', s.performAll ops = .ok s' ∧ Sound s' := by
  induction ops generalizing s with
  | nil => exact ⟨s, rfl, h⟩
  | cons event ops ih =>
      obtain ⟨t, op⟩ := event
      obtain ⟨s₁, hs₁, hsound₁⟩ := h.perform t op
      obtain ⟨s', hs', hsound⟩ := ih hsound₁
      refine ⟨s', ?_, hsound⟩
      rw [Timer.performAll, hs₁]
      exact hs'

/-- The constructor, step by step. -/
theorem construct_eq (t : ℚ) :
    Timer.construct t = .ok
      { initialized := false
        finalized := false
        timerFinalize := -1
        timerName := "Performance Timings:"
        numBegins := 1
        callgraph := [gtimer]
        timerMap := (∅ : TreeMap TimerId TimerData).insert gtimer (.first t) } := by
  rw [Timer.construct, begin_gtimer rfl]
  rfl

theorem construct_sound (t : ℚ) : ∃ s, Timer.construct t = .ok s ∧ Sound s := by
  refine ⟨_, construct_eq t, le_refl (1 : ℤ), fun id hid => ?_, .first t,
    TreeMap.getElem?_insert_self⟩
  rw [List.mem_singleton] at hid
  exact ⟨.first t, by rw [hid]; exact TreeMap.getElem?_insert_self⟩

/-- **Safety.** From the constructor on, no sequence of calls takes the top of an
empty callgraph or pauses or resumes a timer that has no data. -/
theorem never_misused (t : ℚ) (ops : List (ℚ × Op)) :
    ∃ s s', Timer.construct t = .ok s ∧ s.performAll ops = .ok s' := by
  obtain ⟨s, hs, hsound⟩ := construct_sound t
  obtain ⟨s', hs', -⟩ := hsound.performAll ops
  exact ⟨s, s', hs, hs'⟩

end Grvy.Timing
