import Mathlib.Algebra.Order.Ring.Rat
import Mathlib.Data.List.Sort
import Grvy.Lib.Outcome
import Grvy.Lib.TreeMapCensus

/-!
The timers of `grvy_timer.cpp`: `BeginTimer`, `EndTimer`, `PauseTimer`,
`ResumeTimer`, `Reset`, `Init` and `Finalize`, acting on the map of timers, the
callgraph and the count of active timers.

Times are rationals. The clock is read by the caller, once for each call, and
is a parameter of every function that reads it. An accumulator keeps the
samples given to it, latest first. A key is a string of bytes, and a `char` is
signed. Where the source would look at the top of an empty callgraph,
dereference the end of the map or subscript a key past its end, the functions
stop with a `Misuse`.
-/

namespace Grvy.Timing

open Std (TreeMap)
open Grvy.Lib

/-- A timer key. -/
abbrev TimerId := List UInt8

/-- The bytes of an ASCII string. -/
def key (s : String) : TimerId := s.toList.map fun c => c.toNat.toUInt8

/-- `_GRVY_gtimer`, the key of the global timer. -/
def gtimer : TimerId := key "GRVY_Unassigned"

/-- `GRVY_Timer_Data`. -/
structure TimerData where
  /-- `timings[0]`: accumulated exclusive time -/
  timings0 : ℚ
  /-- `timings[1]`: latest timestamp -/
  timings1 : ℚ
  /-- `timings_inc[0]`: accumulated inclusive time -/
  timingsInc0 : ℚ
  /-- `timings_inc[1]`: timestamp at timer begin -/
  timingsInc1 : ℚ
  /-- Time accumulated before the timer was last paused. -/
  accumulated : ℚ
  stats : List ℚ
  statsInc : List ℚ
  deriving DecidableEq, Repr

/-- `GRVY_Timer_ClassImp`. -/
structure Timer where
  initialized : Bool
  finalized : Bool
  /-- Raw timer value at the time of `Finalize()`. -/
  timerFinalize : ℚ
  timerName : String
  /-- Number of active begin timers. -/
  numBegins : ℤ
  /-- The keys of the embedded timers, innermost first. -/
  callgraph : List TimerId
  timerMap : TreeMap TimerId TimerData

inductive Misuse
  /-- `callgraph.top()` on an empty stack. -/
  | emptyCallgraph
  /-- An iterator that `find` returned is dereferenced at the end of the map. -/
  | endOfMap
  /-- `index->first[1]` of an empty key. -/
  | subscript
  deriving DecidableEq, Repr

/-- An error printed on behalf of a function, about a key. -/
structure Message where
  func : String
  text : String
  id : TimerId
  deriving DecidableEq, Repr

/-! ### The data of one timer -/

namespace TimerData

/-- The data entered by the first call for a key. -/
def first (mytime : ℚ) : TimerData where
  timings0 := 0
  timings1 := mytime
  timingsInc0 := 0
  timingsInc1 := mytime
  accumulated := 0
  stats := []
  statsInc := []

def restart (mytime : ℚ) (d : TimerData) : TimerData :=
  { d with timings1 := mytime, timingsInc1 := mytime, accumulated := 0 }

def pause (mytime : ℚ) (d : TimerData) : TimerData :=
  { d with accumulated := d.accumulated + (mytime - d.timings1) }

def resume (mytime : ℚ) (d : TimerData) : TimerData := { d with timings1 := mytime }

/-- The total time between begin and end, without the time spent in embedded
timers. -/
def increment (mytime : ℚ) (d : TimerData) : ℚ := (mytime - d.timings1) + d.accumulated

def inclusiveIncrement (mytime : ℚ) (d : TimerData) : ℚ := mytime - d.timingsInc1

def finish (mytime : ℚ) (d : TimerData) : TimerData :=
  { d with
    timings0 := d.timings0 + d.increment mytime
    timings1 := -1
    stats := d.increment mytime :: d.stats
    timingsInc0 := d.timingsInc0 + d.inclusiveIncrement mytime
    timingsInc1 := -1
    statsInc := d.inclusiveIncrement mytime :: d.statsInc }

def clear (d : TimerData) : TimerData :=
  { d with timings0 := 0, timingsInc0 := 0, stats := [], statsInc := [] }

end TimerData

/-- A signed count converted to `size_t`. A negative count wraps around, and one
that is not negative counts calls, which fit. -/
def asSize (n : ℤ) : ℤ := if n < 0 then n % 2 ^ 64 else n

/-- `index->first[1]` as a signed `char`. The character after the last one is
the terminating zero. -/
def secondChar : TimerId → Option Int8
  | [] => none
  | [_] => some 0
  | _ :: c :: _ => some c.toInt8

namespace Timer

/-! ### PauseTimer and ResumeTimer -/

/-- Look a key up and act on its data. -/
def updateTimer (f : TimerData → TimerData) (id : TimerId) (s : Timer) : Except Misuse Timer :=
  match s.timerMap[id]? with
  | none => .error .endOfMap
  | some d => .ok { s with timerMap := s.timerMap.insert id (f d) }

def pauseTimer (mytime : ℚ) (id : TimerId) (s : Timer) : Except Misuse Timer :=
  s.updateTimer (TimerData.pause mytime) id

def resumeTimer (mytime : ℚ) (id : TimerId) (s : Timer) : Except Misuse Timer :=
  s.updateTimer (TimerData.resume mytime) id

/-- `callgraph.top()` -/
def top (s : Timer) : Except Misuse TimerId :=
  match s.callgraph with
  | [] => .error .emptyCallgraph
  | id :: _ => .ok id

/-- An embedded timer is detected when more than two timers are active, the
global one included; the top of the callgraph is then the surrounding one. -/
def onSurrounding (act : TimerId → Timer → Except Misuse Timer) (s : Timer) :
    Except Misuse Timer :=
  if s.numBegins > 2 then do act (← s.top) s else .ok s

/-! ### BeginTimer and EndTimer -/

/-- The callgraph with the key pushed, unless it is deeper than the count of
active timers. -/
def pushCallgraph (id : TimerId) (s : Timer) : List TimerId :=
  if asSize s.numBegins > s.callgraph.length then id :: s.callgraph else s.callgraph

/-- The data of a timer that begins: is this the first call for its key? -/
def beginData (mytime : ℚ) : Option TimerData → TimerData
  | none => .first mytime
  | some d => d.restart mytime

def beginTimer (id : TimerId) (mytime : ℚ) (s : Timer) : Except Misuse Timer := do
  let s ← onSurrounding (pauseTimer mytime) { s with numBegins := s.numBegins + 1 }
  .ok { s with
    callgraph := s.pushCallgraph id
    timerMap := s.timerMap.insert id (beginData mytime s.timerMap[id]?) }

/-- Pop the current timer off the callgraph and resume the surrounding one. -/
def leaveTimer (id : TimerId) (mytime : ℚ) (s : Timer) :
    Except Misuse (List Message × Timer) := do
  let messages := match s.callgraph with
    | [] => [{ func := "EndTimer", text := "no callgraph left for", id := id }]
    | _ :: _ => []
  let s ← onSurrounding (resumeTimer mytime) { s with callgraph := s.callgraph.tail }
  .ok (messages, { s with numBegins := s.numBegins - 1 })

/-- The part of `EndTimer` that looks the key up. -/
def stopTimer (id : TimerId) (mytime : ℚ) (s : Timer) :
    Except Misuse (List Message × Timer) :=
  match s.timerMap[id]? with
  | none => .ok ([{ func := "EndTimer", text := "No timer data available for", id := id }], s)
  | some d =>
      match secondChar id with
      | none => .error .subscript
      | some c =>
          if c < 0 then
            .ok ([{ func := "EndTimer", text := "No matching begin timer call for", id := id }], s)
          else
            leaveTimer id mytime { s with timerMap := s.timerMap.insert id (d.finish mytime) }

def endTimer (id : TimerId) (mytime : ℚ) (s : Timer) :
    Except Misuse (List Message × Timer) := do
  let (messages, s) ← s.stopTimer id mytime
  .ok (messages, if id = gtimer then { s with timerFinalize := mytime } else s)

/-! ### The life of a timer object -/

def reset (mytime : ℚ) (s : Timer) : Except Misuse Timer :=
  beginTimer gtimer mytime
    { s with numBegins := 0, timerMap := s.timerMap.map fun _ d => d.clear }

def init (name : String) (mytime : ℚ) (s : Timer) : Except Misuse Timer :=
  reset mytime { s with initialized := true, timerName := name }

/-- The constructor. -/
def construct (mytime : ℚ) : Except Misuse Timer := do
  let s ← beginTimer gtimer mytime
    { initialized := false
      finalized := false
      timerFinalize := -1
      timerName := ""
      numBegins := 0
      callgraph := []
      timerMap := ∅ }
  .ok { s with timerName := "Performance Timings:" }

def finalize (mytime : ℚ) (s : Timer) : Except Misuse (List Message × Timer) := do
  let (messages, s) ← s.endTimer gtimer mytime
  .ok (messages, { s with finalized := true })

/-! ### Queries -/

/-- What a field of a timer's data says, zero for an unknown key. -/
def timing (field : TimerData → ℚ) (s : Timer) (id : TimerId) : ℚ :=
  match s.timerMap[id]? with
  | none => 0
  | some d => field d

def statsCount (id : TimerId) (s : Timer) : ℕ :=
  match s.timerMap[id]? with
  | none => 0
  | some d => d.stats.length

/-- The timings of all subordinate keys, summed as `Summarize` does. -/
def subtime (s : Timer) : ℚ :=
  ((s.timerMap.toList.filter fun e => e.1 ≠ gtimer).map fun e => e.2.timings0).sum

end Timer

/-! ### Sequences of calls -/

inductive Call
  | beginTimer (id : TimerId)
  | endTimer (id : TimerId)
  deriving DecidableEq, Repr

/-- One call at a given clock value. Its messages are printed. -/
def Timer.call (mytime : ℚ) (c : Call) (s : Timer) : Except Misuse Timer :=
  match c with
  | .beginTimer id => s.beginTimer id mytime
  | .endTimer id => do
      let (_, s) ← s.endTimer id mytime
      .ok s

def Timer.run : List (ℚ × Call) → Timer → Except Misuse Timer
  | [], s => .ok s
  | (mytime, c) :: calls, s => do Timer.run calls (← s.call mytime c)

/-! ### What one call does -/

namespace Timer

/-- If there is a surrounding timer, it is on the callgraph and in the map. -/
def HasSurrounding (s : Timer) : Prop :=
  2 < s.numBegins →
    ∃ (id : TimerId) (rest : List TimerId) (d : TimerData),
      s.callgraph = id :: rest ∧ s.timerMap[id]? = some d

/-- The data under each key once the surrounding timer has been acted on. -/
def surroundingData (f : TimerData → TimerData) (s : Timer) (id : TimerId) : Option TimerData :=
  if 2 < s.numBegins ∧ s.callgraph.head? = some id then s.timerMap[id]?.map f
  else s.timerMap[id]?

variable {mytime : ℚ} {s s' : Timer} {id : TimerId} {f : TimerData → TimerData}

/-- Only the timer on top of the callgraph is acted on. -/
theorem surroundingData_of_head_ne (h : s.callgraph.head? ≠ some id) :
    s.surroundingData f id = s.timerMap[id]? := by
  rw [surroundingData, if_neg fun hc => h hc.2]

/-- No misuse happens if and only if the surrounding timer is there. -/
theorem onSurrounding_isOk_iff :
    (∃ s', s.onSurrounding (updateTimer f) = .ok s') ↔ s.HasSurrounding := by
  rw [onSurrounding, HasSurrounding]
  by_cases hbegins : s.numBegins > 2
  · rw [if_pos hbegins]
    simp only [hbegins, true_implies]
    cases hgraph : s.callgraph with
    | nil => simp [top, hgraph, bind, Except.bind]
    | cons x rest => cases hmap : s.timerMap[x]? <;>
        simp [top, hgraph, bind, Except.bind, updateTimer, hmap]
  · rw [if_neg hbegins]
    exact iff_of_true ⟨s, rfl⟩ fun h => absurd h hbegins

theorem onSurrounding_inv (h : s.onSurrounding (updateTimer f) = .ok s') :
    ∃ m, s' = { s with timerMap := m } ∧ ∀ id : TimerId, m[id]? = surroundingData f s id := by
  rw [onSurrounding] at h
  by_cases hbegins : s.numBegins > 2
  · rw [if_pos hbegins] at h
    cases hgraph : s.callgraph with
    | nil => simp [top, hgraph, bind, Except.bind] at h
    | cons x rest =>
        simp only [top, hgraph, bind, Except.bind, updateTimer] at h
        cases hmap : s.timerMap[x]? with
        | none => simp [hmap] at h
        | some d =>
            simp only [hmap, Except.ok.injEq] at h
            refine ⟨_, h.symm, fun id => ?_⟩
            by_cases hid : id = x
            · subst hid
              simp [surroundingData, hbegins, hgraph, hmap]
            · rw [getElem?_insert_of_ne hid]
              simp [surroundingData, hgraph, Ne.symm hid]
  · rw [if_neg hbegins, Except.ok.injEq] at h
    refine ⟨s.timerMap, h.symm, fun id => ?_⟩
    rw [surroundingData, if_neg fun hc => hbegins hc.1]

/-- What `BeginTimer` does. -/
structure Begun (id : TimerId) (mytime : ℚ) (s s' : Timer) : Prop where
  numBegins : s'.numBegins = s.numBegins + 1
  callgraph : s'.callgraph =
    if asSize (s.numBegins + 1) > s.callgraph.length then id :: s.callgraph else s.callgraph
  self : s'.timerMap[id]? = some (beginData mytime
    (surroundingData (.pause mytime) { s with numBegins := s.numBegins + 1 } id))
  other : ∀ id' : TimerId, id' ≠ id → s'.timerMap[id']? =
    surroundingData (.pause mytime) { s with numBegins := s.numBegins + 1 } id'

theorem beginTimer_isOk (id : TimerId) (mytime : ℚ)
    (h : HasSurrounding { s with numBegins := s.numBegins + 1 }) :
    ∃ s', s.beginTimer id mytime = .ok s' := by
  obtain ⟨s₁, hact⟩ := onSurrounding_isOk_iff (f := .pause mytime).mpr h
  have hpause : onSurrounding (pauseTimer mytime) { s with numBegins := s.numBegins + 1 } =
      .ok s₁ := hact
  rw [beginTimer, hpause]
  exact ⟨_, rfl⟩

theorem beginTimer_inv (h : s.beginTimer id mytime = .ok s') : Begun id mytime s s' := by
  rw [beginTimer] at h
  cases hact : onSurrounding (pauseTimer mytime) { s with numBegins := s.numBegins + 1 } with
  | error e => simp [hact, bind, Except.bind] at h
  | ok s₁ =>
      obtain ⟨m, rfl, hm⟩ := onSurrounding_inv (f := .pause mytime) hact
      simp only [hact, bind, Except.bind, Except.ok.injEq] at h
      subst h
      refine ⟨rfl, rfl, ?_, fun id' hid => ?_⟩
      · change (m.insert id _)[id]? = _
        rw [TreeMap.getElem?_insert_self, hm]
      · change (m.insert id _)[id']? = _
        rw [getElem?_insert_of_ne hid, hm]

/-- The state in which `EndTimer` looks for a timer to resume. -/
def popped (id : TimerId) (d : TimerData) (s : Timer) : Timer :=
  { s with callgraph := s.callgraph.tail, timerMap := s.timerMap.insert id d }

/-- What `EndTimer` does to a key that has data. -/
structure Ended (id : TimerId) (mytime : ℚ) (d : TimerData) (s s' : Timer) : Prop where
  numBegins : s'.numBegins = s.numBegins - 1
  callgraph : s'.callgraph = s.callgraph.tail
  timerMap : ∀ id' : TimerId, s'.timerMap[id']? =
    surroundingData (.resume mytime) (s.popped id (d.finish mytime)) id'

theorem endTimer_isOk {d : TimerData} {c : Int8} (hmap : s.timerMap[id]? = some d)
    (hc : secondChar id = some c) (hpos : ¬c < 0)
    (h : HasSurrounding (s.popped id (d.finish mytime))) :
    ∃ messages s', s.endTimer id mytime = .ok (messages, s') := by
  obtain ⟨s₁, hact⟩ := onSurrounding_isOk_iff (f := .resume mytime).mpr h
  have hresume : onSurrounding (resumeTimer mytime) (s.popped id (d.finish mytime)) = .ok s₁ :=
    hact
  simp only [popped] at hresume
  simp only [endTimer, stopTimer, hmap, hc, if_neg hpos, leaveTimer, hresume, bind, Except.bind]
  exact ⟨_, _, rfl⟩

theorem endTimer_inv {d : TimerData} {c : Int8} {messages : List Message}
    (hmap : s.timerMap[id]? = some d) (hc : secondChar id = some c) (hpos : ¬c < 0)
    (h : s.endTimer id mytime = .ok (messages, s')) : Ended id mytime d s s' := by
  simp only [endTimer, stopTimer, hmap, hc, if_neg hpos, leaveTimer, bind, Except.bind] at h
  cases hact : onSurrounding (resumeTimer mytime) (s.popped id (d.finish mytime)) with
  | error e =>
      simp only [popped] at hact
      simp [hact] at h
  | ok s₁ =>
      obtain ⟨m, rfl, hm⟩ := onSurrounding_inv (f := .resume mytime) hact
      simp only [popped] at hact
      simp only [hact, Except.ok.injEq, Prod.mk.injEq] at h
      obtain ⟨-, rfl⟩ := h
      split
      · exact ⟨rfl, rfl, hm⟩
      · exact ⟨rfl, rfl, hm⟩

end Timer

end Grvy.Timing
