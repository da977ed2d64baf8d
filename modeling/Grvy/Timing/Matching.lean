import Grvy.Timing.Lifecycle

/-!
Which `EndTimer` calls are accepted.

A timer is running if it was begun since it was last ended, and `EndTimer`
should refuse all other keys. Instead of the timestamp, its test reads the
second character of the key. So a key with data is accepted whether it runs or
not, unless that character is negative, and then it is never accepted.
-/

namespace Grvy.Timing

open Std (TreeMap)
open Grvy.Lib

/-! ### Histories -/

/-- The `BeginTimer` and `EndTimer` calls that an operation makes. -/
def Op.calls (s : Timer) : Op → List Call
  | .init _ => [.beginTimer gtimer]
  | .beginTimer id => [.beginTimer id]
  | .endTimer id _ => [.endTimer id]
  | .reset => [.beginTimer gtimer]
  | .finalize => [.endTimer gtimer]
  | .summarize => if s.finalized then [] else [.endTimer gtimer]
  | .elapsedSeconds _ _ => []
  | .elapsedGlobal => []

/-- The objects a program can reach, with the `BeginTimer` and `EndTimer` calls
made so far, latest first. -/
inductive Reached : List Call → Timer → Prop
  | construct {t : ℚ} {s : Timer} (h : Timer.construct t = .ok s) :
      Reached [.beginTimer gtimer] s
  | perform {history : List Call} {s s' : Timer} (t : ℚ) (op : Op) (h : Reached history s)
      (hop : s.perform t op = .ok s') : Reached (op.calls s ++ history) s'

/-- Since its last end, if there was one, the timer was begun. -/
def Running (id : TimerId) (history : List Call) : Prop :=
  history.find? (fun c => c = .beginTimer id ∨ c = .endTimer id) = some (.beginTimer id)

instance (id : TimerId) (history : List Call) : Decidable (Running id history) :=
  inferInstanceAs (Decidable (_ = _))

variable {t : ℚ} {s s' : Timer} {id : TimerId} {history : List Call} {op : Op}

theorem mem_of_running (h : Running id history) : Call.beginTimer id ∈ history :=
  List.mem_of_find?_eq_some h

theorem Reached.sound (h : Reached history s) : Sound s := by
  induction h with
  | @construct t s hs =>
      obtain ⟨s', hs', hsound⟩ := construct_sound t
      obtain rfl : s' = s := Except.ok.inj (hs'.symm.trans hs)
      exact hsound
  | perform t op _ hop ih =>
      obtain ⟨s', hs', hsound⟩ := ih.perform t op
      exact Except.ok.inj (hs'.symm.trans hop) ▸ hsound

/-- A key that an operation begins has data from then on. -/
theorem known_of_begun (hop : s.perform t op = .ok s') (h : Call.beginTimer id ∈ op.calls s) :
    Known s' id := by
  cases op with
  | init name =>
      obtain rfl : id = gtimer := by simpa [Op.calls] using h
      exact ⟨_, (Timer.beginTimer_inv hop).self⟩
  | beginTimer id' =>
      obtain rfl : id = id' := by simpa [Op.calls] using h
      exact ⟨_, (Timer.beginTimer_inv hop).self⟩
  | endTimer id' past => simp [Op.calls] at h
  | reset =>
      obtain rfl : id = gtimer := by simpa [Op.calls] using h
      exact ⟨_, (Timer.beginTimer_inv hop).self⟩
  | finalize => simp [Op.calls] at h
  | summarize =>
      rw [Op.calls] at h
      split at h <;> simp at h
  | elapsedSeconds id' exclusive => simp [Op.calls] at h
  | elapsedGlobal => simp [Op.calls] at h

theorem Reached.known (h : Reached history s) (hbegun : Call.beginTimer id ∈ history) :
    Known s id := by
  induction h with
  | @construct t s hs =>
      obtain rfl : id = gtimer := by simpa using hbegun
      obtain rfl := Except.ok.inj ((construct_eq t).symm.trans hs)
      exact ⟨_, TreeMap.getElem?_insert_self⟩
  | perform t op _ hop ih =>
      rcases List.mem_append.mp hbegun with hnow | hbefore
      · exact known_of_begun hop hnow
      · exact (ih hbefore).perform hop

/-! ### Accepted and refused calls -/

/-- `EndTimer` of a key refuses unless the timer is running, and then changes
neither timers nor callgraph nor count; if the timer is running, one sample and
one level are gone. -/
def EndMatched (history : List Call) (id : TimerId) (t : ℚ) (s : Timer) : Prop :=
  ∃ messages s', s.endTimer id t = .ok (messages, s') ∧
    (s.timerMap[id]? = none ∨ ¬Running id history →
      messages ≠ [] ∧ s'.timerMap = s.timerMap ∧ s'.callgraph = s.callgraph ∧
        s'.numBegins = s.numBegins) ∧
    (Running id history →
      (∃ x, s'.samples id = x :: s.samples id) ∧ (∃ top, s.callgraph = top :: s'.callgraph) ∧
        s'.numBegins = s.numBegins - 1)

/-- Without an empty key nothing is read behind it. -/
theorem endTimerPast_of_ne_nil (hid : id ≠ []) (past : Int8) (t : ℚ) (s : Timer) :
    s.endTimerPast past id t = s.endTimer id t := by
  cases hc : secondChar id with
  | none => exact absurd (secondChar_eq_none.mp hc) hid
  | some c => simp [Timer.endTimerPast, hc]

/-- What is asked of a call, in terms of what it has returned. -/
theorem endMatched_iff_of_ok {messages : List Message}
    (hend : s.endTimer id t = .ok (messages, s')) :
    EndMatched history id t s ↔
      (s.timerMap[id]? = none ∨ ¬Running id history →
        messages ≠ [] ∧ s'.timerMap = s.timerMap ∧ s'.callgraph = s.callgraph ∧
          s'.numBegins = s.numBegins) ∧
      (Running id history →
        (∃ x, s'.samples id = x :: s.samples id) ∧ (∃ top, s.callgraph = top :: s'.callgraph) ∧
          s'.numBegins = s.numBegins - 1) := by
  constructor
  · rintro ⟨messages', s'', hend', hrest⟩
    rw [hend, Except.ok.injEq, Prod.mk.injEq] at hend'
    obtain ⟨rfl, rfl⟩ := hend'
    exact hrest
  · exact fun hrest => ⟨messages, s', hend, hrest⟩

/-- A call that changes nothing is right if and only if the timer is not running. -/
theorem endMatched_iff_of_refused {messages : List Message}
    (hend : s.endTimer id t = .ok (messages, s)) (hmsg : messages ≠ []) :
    EndMatched history id t s ↔ ¬Running id history := by
  rw [endMatched_iff_of_ok hend]
  constructor
  · rintro ⟨-, hrunning⟩ hrun
    obtain ⟨⟨x, hx⟩, -⟩ := hrunning hrun
    exact List.cons_ne_self x _ hx.symm
  · exact fun hnot => ⟨fun _ => ⟨hmsg, rfl, rfl, rfl⟩, fun hrun => absurd hrun hnot⟩

/-- A call that takes a sample is right if and only if the timer is running and there
is a level to pop. -/
theorem endMatched_iff_of_accepted {messages : List Message} {d : TimerData}
    (hend : s.endTimer id t = .ok (messages, s')) (hd : s.timerMap[id]? = some d)
    (haccept : Accepted id t d s messages s') :
    EndMatched history id t s ↔ Running id history ∧ s.callgraph ≠ [] := by
  obtain ⟨x, hx⟩ := haccept.samples hd
  rw [endMatched_iff_of_ok hend]
  constructor
  · rintro ⟨hrefused, hrunning⟩
    have hrun : Running id history := by
      by_contra hnot
      obtain ⟨-, hmap, -⟩ := hrefused (Or.inr hnot)
      rw [Timer.samples, hmap, ← Timer.samples] at hx
      exact List.cons_ne_self x _ hx.symm
    obtain ⟨-, ⟨top, htop⟩, -⟩ := hrunning hrun
    exact ⟨hrun, by rw [htop]; exact List.cons_ne_nil _ _⟩
  · rintro ⟨hrun, hne⟩
    refine ⟨fun hor => ?_, fun _ => ⟨⟨x, hx⟩, ⟨s.callgraph.head hne, ?_⟩, haccept.numBegins⟩⟩
    · rcases hor with hnone | hnot
      · rw [hd] at hnone
        cases hnone
      · exact absurd hrun hnot
    · rw [haccept.callgraph, List.cons_head_tail]

/-- **Matching.** In every reachable state and for every key that is not empty,
`EndTimer` does what it should if and only if the key has no data, or its second
character is negative and its timer is not running, or that character is not
negative, the timer is running and there is a level to pop. -/
theorem endTimer_matched_iff (h : Reached history s) (hid : id ≠ []) (t : ℚ) :
    EndMatched history id t s ↔
      s.timerMap[id]? = none ∨ (charAt1 0 id < 0 ∧ ¬Running id history) ∨
        (¬charAt1 0 id < 0 ∧ Running id history ∧ s.callgraph ≠ []) := by
  obtain ⟨messages, s', hpast, -⟩ := h.sound.endTimerPast 0 id t
  have hend := hpast
  rw [endTimerPast_of_ne_nil hid] at hend
  rcases endTimerPast_cases hpast with
    ⟨hnone, hmsg, rfl⟩ | ⟨d, hd, hc, hmsg, hsame⟩ | ⟨d, hd, hc, haccept⟩
  · -- A timer that runs was begun, and has data.
    have hnot : ¬Running id history := by
      intro hrun
      obtain ⟨d, hd⟩ := h.known (mem_of_running hrun)
      rw [hnone] at hd
      cases hd
    rw [endMatched_iff_of_ok hend]
    exact iff_of_true ⟨fun _ => ⟨hmsg, by simp⟩, fun hrun => absurd hrun hnot⟩ (Or.inl hnone)
  · rw [hsame] at hend
    rw [endMatched_iff_of_refused hend hmsg]
    simp [hd, hc]
  · rw [endMatched_iff_of_accepted hend hd haccept]
    simp [hd, hc]

/-- A new object on which a timer was begun. -/
def begun (id : TimerId) : Except Misuse Timer := do
  let s ← Timer.construct 0
  s.perform 1 (.beginTimer id)

/-- A new object on which a timer was begun and ended. -/
def ended (id : TimerId) : Except Misuse Timer := do
  let s ← begun id
  s.perform 2 (.endTimer id 0)

theorem reached_begun (h : begun id = .ok s) :
    Reached [.beginTimer id, .beginTimer gtimer] s := by
  obtain ⟨s₀, hconstruct, hbegin⟩ := exists_of_bind_eq_ok h
  exact (Reached.construct hconstruct).perform 1 (.beginTimer id) hbegin

theorem reached_ended (h : ended id = .ok s) :
    Reached [.endTimer id, .beginTimer id, .beginTimer gtimer] s := by
  obtain ⟨s₁, hbegin, hend⟩ := exists_of_bind_eq_ok h
  exact (reached_begun hbegin).perform 2 (.endTimer id 0) hend

/-- The letter é. -/
def acute : TimerId := [195, 169]

/-- Ending a timer twice is accepted twice, and a timer whose key is the letter é
cannot be ended. -/
theorem not_matched :
    (∃ s, Reached [.endTimer (key "a"), .beginTimer (key "a"), .beginTimer gtimer] s ∧
      ¬EndMatched [.endTimer (key "a"), .beginTimer (key "a"), .beginTimer gtimer] (key "a") 3
        s) ∧
    ∃ s, Reached [.beginTimer acute, .beginTimer gtimer] s ∧
      ¬EndMatched [.beginTimer acute, .beginTimer gtimer] acute 2 s := by
  constructor
  · have hrun : ∃ s, ended (key "a") = .ok s ∧
        ((s.endTimer (key "a") 3).toOption.any fun r => r.1 = []) = true :=
      exists_ok_of_any (by decide +kernel)
    obtain ⟨s, hs, htest⟩ := hrun
    obtain ⟨⟨messages, s'⟩, hend, hmsg⟩ := exists_ok_of_any htest
    refine ⟨s, reached_ended hs, ?_⟩
    rintro ⟨messages', s'', hend', hrefused, -⟩
    rw [hend, Except.ok.injEq, Prod.mk.injEq] at hend'
    obtain ⟨rfl, rfl⟩ := hend'
    exact (hrefused (Or.inr (by decide +kernel))).1 (of_decide_eq_true hmsg)
  · have hrun : ∃ s, begun acute = .ok s ∧
        ((s.endTimer acute 2).toOption.any fun r => r.2.samples acute = []) = true :=
      exists_ok_of_any (by decide +kernel)
    obtain ⟨s, hs, htest⟩ := hrun
    obtain ⟨⟨messages, s'⟩, hend, hsamples⟩ := exists_ok_of_any htest
    refine ⟨s, reached_begun hs, ?_⟩
    rintro ⟨messages', s'', hend', -, hrunning⟩
    rw [hend, Except.ok.injEq, Prod.mk.injEq] at hend'
    obtain ⟨rfl, rfl⟩ := hend'
    obtain ⟨⟨x, hx⟩, -⟩ := hrunning (by decide +kernel)
    rw [of_decide_eq_true hsamples] at hx
    cases hx

/-- A running timer with an ASCII key is ended. -/
theorem matched_running :
    ∃ s, Reached [.beginTimer (key "a"), .beginTimer gtimer] s ∧
      EndMatched [.beginTimer (key "a"), .beginTimer gtimer] (key "a") 2 s := by
  have hrun : ∃ s, begun (key "a") = .ok s ∧ decide (s.callgraph ≠ []) = true :=
    exists_ok_of_any (by decide +kernel)
  obtain ⟨s, hs, hgraph⟩ := hrun
  have hreached := reached_begun hs
  refine ⟨s, hreached, (endTimer_matched_iff hreached (by decide +kernel) 2).mpr ?_⟩
  exact Or.inr (Or.inr ⟨by decide +kernel, by decide +kernel, of_decide_eq_true hgraph⟩)

end Grvy.Timing
