import Mathlib.Tactic.Linarith
import Grvy.Timing.CleanStart

/-!
Samples that are physically possible.

As long as a timer is not begun while it is open, and only the timer begun last
is ended, every sample lies between zero and the time since `Init`, and no key
has more exclusive than inclusive time. An interrupted timer keeps in
`accumulated` at most the time since its own begin, and the timer at the bottom
of the callgraph is never interrupted. A timer begun again while it is open, or
ended out of order, loses its timestamps, and the samples are impossible.
-/

namespace Grvy.Timing

open Std (TreeMap)
open Grvy.Lib Grvy.Lib.TimedTrace

/-! ### Possible samples -/

/-- A sample taken within the given time. -/
def InTime (span x : ℚ) : Prop := 0 ≤ x ∧ x ≤ span

/-- The samples of a key are possible within the given time, and its total times
are too. -/
structure PossibleData (span : ℚ) (d : TimerData) : Prop where
  exclusive : ∀ x ∈ d.stats, InTime span x
  inclusive : ∀ x ∈ d.statsInc, InTime span x
  total : d.timings0 ≤ d.timingsInc0

def Possible (t₀ t : ℚ) (s : Timer) : Prop :=
  ∀ (id : TimerId) (d : TimerData), s.timerMap[id]? = some d → PossibleData (t - t₀) d

/-- Each `EndTimer` has an earlier `BeginTimer` for the same key that is not ended
yet. `opened` are the keys begun and not ended so far. -/
def Matched : List TimerId → List (ℚ × Op) → Prop
  | _, [] => True
  | opened, (_, .beginTimer id) :: ops => Matched (id :: opened) ops
  | opened, (_, .endTimer id _) :: ops => id ∈ opened ∧ Matched (opened.erase id) ops
  | _, _ :: _ => False

instance decidableMatched : (opened : List TimerId) → (ops : List (ℚ × Op)) →
    Decidable (Matched opened ops)
  | _, [] => inferInstanceAs (Decidable True)
  | opened, (_, .beginTimer id) :: ops => decidableMatched (id :: opened) ops
  | opened, (_, .endTimer id _) :: ops =>
      have := decidableMatched (opened.erase id) ops
      inferInstanceAs (Decidable (_ ∧ _))
  | _, (_, .init _) :: _ => inferInstanceAs (Decidable False)
  | _, (_, .reset) :: _ => inferInstanceAs (Decidable False)
  | _, (_, .finalize) :: _ => inferInstanceAs (Decidable False)
  | _, (_, .summarize) :: _ => inferInstanceAs (Decidable False)
  | _, (_, .elapsedSeconds _ _) :: _ => inferInstanceAs (Decidable False)
  | _, (_, .elapsedGlobal) :: _ => inferInstanceAs (Decidable False)

/-- A key is not begun while it is open, and only the one begun last is ended. -/
def OrderlyStep (s : Timer) : Op → Prop
  | .beginTimer id => id ∉ s.callgraph
  | .endTimer id _ => s.callgraph.head? = some id
  | _ => False

instance (s : Timer) : (op : Op) → Decidable (OrderlyStep s op)
  | .beginTimer id => decidable_of_iff (∀ x ∈ s.callgraph, id ≠ x) List.forall_mem_ne
  | .endTimer id _ => inferInstanceAs (Decidable (s.callgraph.head? = some id))
  | .init _ | .reset | .finalize | .summarize | .elapsedSeconds _ _ | .elapsedGlobal =>
      inferInstanceAs (Decidable False)

/-- Every step of the run is orderly in the state that it finds. -/
def Orderly : Timer → List (ℚ × Op) → Prop
  | _, [] => True
  | s, (t, op) :: ops =>
      OrderlyStep s op ∧ ∀ s', s.perform t op = .ok s' → Orderly s' ops

/-! ### The invariant -/

/-- What an open timer has measured at time `t`. One that runs, and the one at the
bottom, has accumulated nothing after its last timestamp. -/
structure OpenData (t₀ t : ℚ) (uninterrupted : Prop) (d : TimerData) : Prop where
  started : t₀ ≤ d.timingsInc1
  begun : d.timingsInc1 ≤ t
  stamped : d.timings1 ≤ t
  nonneg : 0 ≤ d.accumulated
  accumulated : d.accumulated ≤ t - d.timingsInc1
  running : uninterrupted → d.accumulated ≤ d.timings1 - d.timingsInc1

/-- The invariant of an orderly run at time `t`, started at `t₀`. -/
structure Measures (t₀ t : ℚ) (s : Timer) : Prop where
  numBegins : s.numBegins = s.callgraph.length
  nodup : s.callgraph.Nodup
  possible : Possible t₀ t s
  opened : ∀ id ∈ s.callgraph, ∃ d, s.timerMap[id]? = some d ∧
    OpenData t₀ t (s.callgraph.head? = some id ∨ s.callgraph.getLast? = some id) d

variable {t₀ t t' span span' : ℚ} {s s' : Timer} {id : TimerId} {d : TimerData} {past : Int8}
  {ops : List (ℚ × Op)} {p q : Prop}

theorem InTime.mono {x : ℚ} (h : InTime span x) (hle : span ≤ span') : InTime span' x :=
  ⟨h.1, h.2.trans hle⟩

theorem PossibleData.mono (h : PossibleData span d) (hle : span ≤ span') :
    PossibleData span' d :=
  ⟨fun x hx => (h.exclusive x hx).mono hle, fun x hx => (h.inclusive x hx).mono hle, h.total⟩

theorem OpenData.advance (h : OpenData t₀ t p d) (hle : t ≤ t') : OpenData t₀ t' p d :=
  ⟨h.started, h.begun.trans hle, h.stamped.trans hle, h.nonneg,
    h.accumulated.trans (sub_le_sub_right hle _), h.running⟩

theorem OpenData.weaken (h : OpenData t₀ t p d) (hpq : q → p) : OpenData t₀ t q d :=
  ⟨h.started, h.begun, h.stamped, h.nonneg, h.accumulated, fun hq => h.running (hpq hq)⟩

/-- Time passes. -/
theorem Measures.advance (h : Measures t₀ t s) (hle : t ≤ t') : Measures t₀ t' s := by
  refine ⟨h.numBegins, h.nodup, fun id d hd => ?_, fun id hid => ?_⟩
  · exact (h.possible id d hd).mono (sub_le_sub_right hle _)
  · obtain ⟨d, hd, hopen⟩ := h.opened id hid
    exact ⟨d, hd, hopen.advance hle⟩

/-! ### What a call does to the data of a key -/

theorem openData_begun (hle : t₀ ≤ t) (p : Prop) (data : Option TimerData) :
    OpenData t₀ t p (Timer.beginData t data) := by
  have hinc : (Timer.beginData t data).timingsInc1 = t := by cases data <;> rfl
  have hone : (Timer.beginData t data).timings1 = t := by cases data <;> rfl
  have hacc : (Timer.beginData t data).accumulated = 0 := by cases data <;> rfl
  refine ⟨?_, ?_, ?_, ?_, ?_, fun _ => ?_⟩
  · rw [hinc]
    exact hle
  · rw [hinc]
  · rw [hone]
  · rw [hacc]
  · rw [hacc, hinc, sub_self]
  · rw [hacc, hone, hinc, sub_self]

/-- The running timer is interrupted. -/
theorem OpenData.pause (h : OpenData t₀ t p d) (hp : p) (hq : ¬q) :
    OpenData t₀ t q (d.pause t) := by
  have hacc : (d.pause t).accumulated = d.accumulated + (t - d.timings1) := rfl
  have hrun := h.running hp
  refine ⟨h.started, h.begun, h.stamped, ?_, ?_, fun hq' => absurd hq' hq⟩
  · rw [hacc]
    exact add_nonneg h.nonneg (sub_nonneg.mpr h.stamped)
  · change d.accumulated + (t - d.timings1) ≤ t - d.timingsInc1
    linarith

theorem OpenData.resume (h : OpenData t₀ t p d) (q : Prop) : OpenData t₀ t q (d.resume t) :=
  ⟨h.started, h.begun, le_refl t, h.nonneg, h.accumulated, fun _ => h.accumulated⟩

theorem PossibleData.pause (h : PossibleData span d) (t : ℚ) : PossibleData span (d.pause t) :=
  ⟨h.exclusive, h.inclusive, h.total⟩

theorem PossibleData.resume (h : PossibleData span d) (t : ℚ) :
    PossibleData span (d.resume t) := ⟨h.exclusive, h.inclusive, h.total⟩

theorem PossibleData.beginData {data : Option TimerData} (t : ℚ)
    (h : ∀ d, data = some d → PossibleData span d) :
    PossibleData span (Timer.beginData t data) := by
  cases data with
  | none =>
      exact ⟨fun x hx => absurd hx List.not_mem_nil, fun x hx => absurd hx List.not_mem_nil,
        le_refl _⟩
  | some d =>
      obtain ⟨hexcl, hincl, htotal⟩ := h d rfl
      exact ⟨hexcl, hincl, htotal⟩

/-- The samples of a timer that runs are possible. -/
theorem PossibleData.finish (hdata : PossibleData (t - t₀) d) (h : OpenData t₀ t p d) (hp : p) :
    PossibleData (t - t₀) (d.finish t) := by
  have hrun := h.running hp
  have hstart := h.started
  have hbegun := h.begun
  have hstamp := h.stamped
  have hpos := h.nonneg
  refine ⟨fun x hx => ?_, fun x hx => ?_, ?_⟩
  · rcases List.mem_cons.mp hx with rfl | hx
    · constructor
      · change 0 ≤ (t - d.timings1) + d.accumulated
        linarith
      · change (t - d.timings1) + d.accumulated ≤ t - t₀
        linarith
    · exact hdata.exclusive x hx
  · rcases List.mem_cons.mp hx with rfl | hx
    · exact ⟨sub_nonneg.mpr hbegun, sub_le_sub_left hstart t⟩
    · exact hdata.inclusive x hx
  · have htotal := hdata.total
    change d.timings0 + ((t - d.timings1) + d.accumulated) ≤ d.timingsInc0 + (t - d.timingsInc1)
    linarith

/-- Acting on the surrounding timer takes no samples. -/
theorem possible_surrounding {f : TimerData → TimerData} (h : Possible t₀ t s)
    (hf : ∀ d, PossibleData (t - t₀) d → PossibleData (t - t₀) (f d))
    (hd : s.surroundingData f id = some d) : PossibleData (t - t₀) d := by
  rw [Timer.surroundingData] at hd
  split at hd
  · obtain ⟨d', hd', rfl⟩ := Option.map_eq_some_iff.mp hd
    exact hf d' (h id d' hd')
  · exact h id d hd

/-! ### One call -/

/-- With two keys on it, the top of the callgraph is not its bottom. -/
theorem head_ne_getLast {calls : List TimerId} (hnodup : calls.Nodup) (htwo : 2 ≤ calls.length)
    (hhead : calls.head? = some id) (hlast : calls.getLast? = some id) : False := by
  match calls with
  | [] => cases hhead
  | [_] => simp at htwo
  | x :: y :: rest =>
      rw [List.head?_cons, Option.some.injEq] at hhead
      rw [List.getLast?_cons_cons] at hlast
      rw [hhead] at hnodup
      exact (List.nodup_cons.mp hnodup).1 (List.mem_of_getLast? hlast)

theorem Measures.beginTimer (h : Measures t₀ t s) (hle : t₀ ≤ t) (hid : id ∉ s.callgraph)
    (hbegin : s.beginTimer id t = .ok s') : Measures t₀ t s' := by
  obtain ⟨hnum, hgraph, hself, hother⟩ := Timer.beginTimer_inv hbegin
  rw [if_pos] at hgraph
  swap
  · rw [h.numBegins, asSize_of_nonneg (by omega)]
    omega
  have hpossible : ∀ {id' d}, Timer.surroundingData (.pause t)
      { s with numBegins := s.numBegins + 1 } id' = some d → PossibleData (t - t₀) d :=
    fun {id' d} hd => possible_surrounding (s := { s with numBegins := s.numBegins + 1 })
      h.possible (fun d hd => hd.pause t) hd
  refine ⟨?_, ?_, fun id' d hd => ?_, fun id' hmem => ?_⟩
  · rw [hnum, hgraph, h.numBegins, List.length_cons]
    push_cast
    rfl
  · rw [hgraph]
    exact List.nodup_cons.mpr ⟨hid, h.nodup⟩
  · by_cases heq : id' = id
    · rw [heq, hself, Option.some.injEq] at hd
      rw [← hd]
      exact PossibleData.beginData t fun d hd => hpossible hd
    · rw [hother id' heq] at hd
      exact hpossible hd
  · rw [hgraph] at hmem
    rcases List.mem_cons.mp hmem with rfl | hin
    · exact ⟨_, hself, openData_begun hle _ _⟩
    have hne : id' ≠ id := by
      rintro rfl
      exact hid hin
    obtain ⟨d, hd, hopen⟩ := h.opened id' hin
    rw [hother id' hne, Timer.surroundingData]
    -- below the new timer only the one at the bottom is uninterrupted
    have hbottom : (s'.callgraph.head? = some id' ∨ s'.callgraph.getLast? = some id') →
        s.callgraph.getLast? = some id' := by
      rw [hgraph, List.head?_cons, Option.some.injEq]
      rintro (heq | hlast)
      · exact absurd heq.symm hne
      · rwa [List.getLast?_cons_of_ne_nil (List.ne_nil_of_mem hin)] at hlast
    split
    · rename_i hactive
      obtain ⟨htwo, hhead⟩ := hactive
      change 2 < s.numBegins + 1 at htwo
      rw [h.numBegins] at htwo
      refine ⟨d.pause t, by rw [hd]; rfl, hopen.pause (Or.inl hhead) fun hrun => ?_⟩
      exact head_ne_getLast h.nodup (by omega) hhead (hbottom hrun)
    · exact ⟨d, hd, hopen.weaken fun hrun => Or.inr (hbottom hrun)⟩

@[simp] theorem getElem?_popped (d : TimerData) (id' : TimerId) :
    (s.popped id d).timerMap[id']? = if id' = id then some d else s.timerMap[id']? := by
  rw [Timer.popped]
  split
  · rename_i heq
    rw [heq, TreeMap.getElem?_insert_self]
  · rename_i hne
    rw [getElem?_insert_of_ne hne]

/-- The sample that is taken is of a timer on top. -/
theorem Measures.possible_popped (h : Measures t₀ t s) (hhead : s.callgraph.head? = some id)
    (hd : s.timerMap[id]? = some d) : Possible t₀ t (s.popped id (d.finish t)) := by
  intro id' d' hd'
  rw [getElem?_popped] at hd'
  split at hd'
  · obtain ⟨d₀, hd₀, hopen⟩ := h.opened id (List.mem_of_head? hhead)
    rw [hd, Option.some.injEq] at hd₀
    cases hd₀
    obtain rfl := Option.some.inj hd'
    exact (h.possible id d hd).finish hopen (Or.inl hhead)
  · exact h.possible id' d' hd'

/-- A key on top of a callgraph that has no other is at its bottom. -/
theorem getLast?_of_head? {calls : List TimerId} (hhead : calls.head? = some id)
    (hshort : calls.length < 2) : calls.getLast? = some id := by
  match calls with
  | [] => cases hhead
  | [x] => exact hhead
  | x :: y :: rest =>
      rw [List.length_cons, List.length_cons] at hshort
      omega

theorem Measures.ended {messages : List Message} (h : Measures t₀ t s)
    (hhead : s.callgraph.head? = some id) (hd : s.timerMap[id]? = some d)
    (haccept : Accepted id t d s messages s') : Measures t₀ t s' := by
  obtain ⟨rest, hgraph⟩ := List.head?_eq_some_iff.mp hhead
  have hnodup := h.nodup
  rw [hgraph] at hnodup
  obtain ⟨hnot, hnodup⟩ := List.nodup_cons.mp hnodup
  have htail : s'.callgraph = rest := by rw [haccept.callgraph, hgraph, List.tail_cons]
  refine ⟨?_, ?_, fun id' d' hd' => ?_, fun id' hmem => ?_⟩
  · rw [haccept.numBegins, htail, h.numBegins, hgraph, List.length_cons]
    omega
  · rw [htail]
    exact hnodup
  · rw [haccept.timerMap] at hd'
    exact possible_surrounding (h.possible_popped hhead hd) (fun d hd => hd.resume t) hd'
  · rw [htail] at hmem ⊢
    have hne : id' ≠ id := by
      rintro rfl
      exact hnot hmem
    obtain ⟨d', hd', hopen'⟩ := h.opened id' (by rw [hgraph]; exact List.mem_cons_of_mem _ hmem)
    rw [haccept.timerMap, Timer.surroundingData, getElem?_popped, if_neg hne, hd']
    split
    · exact ⟨d'.resume t, rfl, hopen'.resume _⟩
    · rename_i hactive
      refine ⟨d', rfl, hopen'.weaken fun hrun => Or.inr ?_⟩
      rw [hgraph, List.getLast?_cons_of_ne_nil (List.ne_nil_of_mem hmem)]
      rcases hrun with hfirst | hlast
      · -- a timer on top that is not resumed is at the bottom
        refine getLast?_of_head? hfirst ?_
        by_contra hlong
        refine hactive ⟨?_, ?_⟩
        · change 2 < s.numBegins
          rw [h.numBegins, hgraph, List.length_cons]
          omega
        · change s.callgraph.tail.head? = some id'
          rw [hgraph, List.tail_cons]
          exact hfirst
      · exact hlast

theorem Measures.perform {op : Op} (h : Measures t₀ t s) (hle : t₀ ≤ t)
    (hop : OrderlyStep s op) (hperform : s.perform t op = .ok s') : Measures t₀ t s' := by
  cases op with
  | beginTimer id => exact h.beginTimer hle hop hperform
  | endTimer id past =>
      obtain ⟨messages, hend⟩ := perform_endTimer_ok hperform
      rcases endTimerPast_cases hend with
        ⟨hnone, -⟩ | ⟨d, -, -, -, hsame⟩ | ⟨d, hd, -, haccept⟩
      · obtain ⟨d, hd, -⟩ := h.opened id (List.mem_of_head? hop)
        rw [hnone] at hd
        cases hd
      · rw [hsame]
        exact h
      · exact h.ended hop hd haccept
  | init name => exact absurd hop id
  | reset => exact absurd hop id
  | finalize => exact absurd hop id
  | summarize => exact absurd hop id
  | elapsedSeconds x exclusive => exact absurd hop id
  | elapsedGlobal => exact absurd hop id

/-! ### Runs -/

theorem Measures.performAll (h : Measures t₀ t s) (hle : t₀ ≤ t) (hclock : Chronological t ops)
    (horder : Orderly s ops) (hrun : s.performAll ops = .ok s') :
    Measures t₀ (endTime t ops) s' := by
  induction ops generalizing s t with
  | nil => exact Except.ok.inj hrun ▸ h
  | cons event ops ih =>
      obtain ⟨t', op⟩ := event
      obtain ⟨hnow, hlater⟩ := hclock
      obtain ⟨s₁, hs₁, hrun⟩ := performAll_cons_ok hrun
      have h₁ := (h.advance hnow).perform (hle.trans hnow) horder.1 hs₁
      exact ih h₁ (hle.trans hnow) hlater (horder.2 s₁ hs₁) hrun

/-- `Init` on an object without open timers starts the invariant. -/
theorem init_measures {name : String} {used : Timer} (hinit : used.init name t₀ = .ok s)
    (hbase : s.callgraph = [gtimer]) : Measures t₀ t₀ s := by
  rw [Timer.init, reset_eq] at hinit
  obtain rfl := Except.ok.inj hinit
  have hfirst := restarted_gtimer t₀ { used with initialized := true, timerName := name }
  refine ⟨?_, ?_, fun id d hd => ?_, fun id hid => ?_⟩
  · rw [hbase]
    rfl
  · rw [hbase]
    exact List.nodup_singleton _
  · have hnothing : d.stats = [] ∧ d.statsInc = [] ∧ d.timings0 = 0 ∧ d.timingsInc0 = 0 := by
      by_cases hid : id = gtimer
      · rw [hid, hfirst, Option.some.injEq] at hd
        rw [← hd]
        exact ⟨rfl, rfl, rfl, rfl⟩
      · rw [restarted_getElem? _ _ hid, Option.map_eq_some_iff] at hd
        obtain ⟨d', -, rfl⟩ := hd
        exact ⟨rfl, rfl, rfl, rfl⟩
    obtain ⟨hexcl, hincl, h0, hinc⟩ := hnothing
    refine ⟨?_, ?_, by rw [h0, hinc]⟩
    · rw [hexcl]
      exact fun x hx => absurd hx List.not_mem_nil
    · rw [hincl]
      exact fun x hx => absurd hx List.not_mem_nil
  · rw [hbase, List.mem_singleton] at hid
    rw [hid]
    exact ⟨_, hfirst, openData_begun (le_refl t₀) _ none⟩

theorem Orderly.initial {before : List (ℚ × Op)} (h : Orderly s ops) (hpre : before <+: ops) :
    Orderly s before := by
  obtain ⟨after, rfl⟩ := hpre
  induction before generalizing s with
  | nil => trivial
  | cons event before ih =>
      obtain ⟨t, op⟩ := event
      exact ⟨h.1, fun s' hs' => ih (h.2 s' hs')⟩

theorem init_sound {name : String} {used : Timer} (hinit : used.init name t₀ = .ok s)
    (hbase : s.callgraph = [gtimer]) : Sound s := by
  have hmeasures := init_measures hinit hbase
  have hglobal : Known s gtimer := by
    obtain ⟨d, hd, -⟩ := hmeasures.opened gtimer (by rw [hbase]; exact List.mem_cons_self)
    exact ⟨d, hd⟩
  refine ⟨hmeasures.numBegins.le, fun id hid => ?_, hglobal⟩
  rw [hbase, List.mem_singleton] at hid
  exact hid ▸ hglobal

/-- **Samples.** After `Init` without open timers, an orderly run with a clock that
does not run backwards takes only possible samples, in every state it reaches. -/
theorem samples_possible {name : String} {used s : Timer} {t₀ : ℚ}
    {ops before : List (ℚ × Op)} (hinit : used.init name t₀ = .ok s)
    (hbase : s.callgraph = [gtimer]) (hclock : Chronological t₀ ops) (horder : Orderly s ops)
    (hpre : before <+: ops) :
    ∃ s', s.performAll before = .ok s' ∧ Possible t₀ (endTime t₀ before) s' := by
  obtain ⟨s', hrun, -⟩ := (init_sound hinit hbase).performAll before
  have hmeasures := (init_measures hinit hbase).performAll (le_refl t₀) (hclock.initial hpre)
    (horder.initial hpre) hrun
  exact ⟨s', hrun, hmeasures.possible⟩

/-- A new object on which `Init` is called at time 10. -/
def startAtTen : Except Misuse Timer := do
  let new ← Timer.construct 10
  new.init "x" 10

/-- One timer embedded in another. -/
def nestedOps : List (ℚ × Op) :=
  [(11, .beginTimer (key "a")), (12, .beginTimer (key "b")), (13, .endTimer (key "b") 0),
    (14, .endTimer (key "a") 0)]

/-- A timer that is begun again while it is open. -/
def reentrantOps : List (ℚ × Op) :=
  [(11, .beginTimer (key "a")), (12, .beginTimer (key "a")), (13, .endTimer (key "a") 0),
    (14, .endTimer (key "a") 0)]

/-- Two timers that are not ended in reverse order. -/
def overlappingOps : List (ℚ × Op) :=
  [(11, .beginTimer (key "a")), (12, .beginTimer (key "b")), (13, .endTimer (key "a") 0),
    (14, .endTimer (key "b") 0)]

/-- A run that can be checked step by step. -/
def orderlyRun : Timer → List (ℚ × Op) → Bool
  | _, [] => true
  | s, (t, op) :: ops =>
      decide (OrderlyStep s op) && (s.perform t op).toOption.any fun s' => orderlyRun s' ops

theorem orderly_of_orderlyRun (h : orderlyRun s ops = true) : Orderly s ops := by
  induction ops generalizing s with
  | nil => trivial
  | cons event ops ih =>
      obtain ⟨t, op⟩ := event
      rw [orderlyRun, Bool.and_eq_true, decide_eq_true_eq] at h
      refine ⟨h.1, fun s' hs' => ih ?_⟩
      have hrest := h.2
      rw [hs'] at hrest
      exact hrest

/-- The nested timers take possible samples. -/
theorem nestedOps_possible :
    ∃ s s', startAtTen = .ok s ∧ s.performAll nestedOps = .ok s' ∧ Possible 10 14 s' := by
  have hrun : ∃ new, Timer.construct 10 = .ok new ∧ ((new.init "x" 10).toOption.any fun s =>
      decide (s.callgraph = [gtimer]) && orderlyRun s nestedOps) = true :=
    exists_ok_of_any (by decide +kernel)
  obtain ⟨new, hnew, htest⟩ := hrun
  obtain ⟨s, hinit, htest⟩ := exists_ok_of_any htest
  rw [Bool.and_eq_true, decide_eq_true_eq] at htest
  obtain ⟨s', hs', hpossible⟩ := samples_possible hinit htest.1
    (by simp [nestedOps, Chronological]; norm_num) (orderly_of_orderlyRun htest.2)
    (List.prefix_refl nestedOps)
  refine ⟨s, s', ?_, hs', hpossible⟩
  rw [startAtTen, hnew]
  exact hinit

/-- The timer begun again has an inclusive sample longer than the time since
`Init`, and the timer ended too early has more exclusive than inclusive time. -/
theorem impossible_samples :
    (∃ s s', startAtTen = .ok s ∧ Matched [] reentrantOps ∧ Chronological 10 reentrantOps ∧
      s.performAll reentrantOps = .ok s' ∧ ¬Possible 10 14 s') ∧
    ∃ s s', startAtTen = .ok s ∧ Matched [] overlappingOps ∧ Chronological 10 overlappingOps ∧
      s.performAll overlappingOps = .ok s' ∧ ¬Possible 10 14 s' := by
  constructor
  · have hrun : ∃ s, startAtTen = .ok s ∧ ((s.performAll reentrantOps).toOption.any fun s' =>
        (s'.timerMap[key "a"]?).any fun d => decide (15 ∈ d.statsInc)) = true :=
      exists_ok_of_any (by decide +kernel)
    obtain ⟨s, hs, htest⟩ := hrun
    obtain ⟨s', hs', htest⟩ := exists_ok_of_any htest
    obtain ⟨d, hd, hfifteen⟩ := (Option.any_eq_true _ _).mp htest
    refine ⟨s, s', hs, by decide +kernel, by simp [reentrantOps, Chronological]; norm_num, hs',
      fun hpossible => ?_⟩
    have htime := (hpossible _ d hd).inclusive 15 (of_decide_eq_true hfifteen)
    exact absurd htime.2 (by norm_num)
  · have hrun : ∃ s, startAtTen = .ok s ∧ ((s.performAll overlappingOps).toOption.any fun s' =>
        (s'.timerMap[key "a"]?).any fun d => decide (d.timingsInc0 < d.timings0)) = true :=
      exists_ok_of_any (by decide +kernel)
    obtain ⟨s, hs, htest⟩ := hrun
    obtain ⟨s', hs', htest⟩ := exists_ok_of_any htest
    obtain ⟨d, hd, hmore⟩ := (Option.any_eq_true _ _).mp htest
    refine ⟨s, s', hs, by decide +kernel, by simp [overlappingOps, Chronological]; norm_num, hs',
      fun hpossible => ?_⟩
    exact absurd (hpossible _ d hd).total (not_le.mpr (of_decide_eq_true hmore))

end Grvy.Timing
