import Grvy.Timing.Likeness

/-!
What `Reset` and `Init` leave behind.

`Reset` clears the times of all timers and the count of active timers. It leaves
the callgraph, the finalized flag, the timestamp of `Finalize` and the set of
known keys. An object started that way behaves as a new one if and only if none
of these matters: the callgraph held at most one key, the object was not
finalized, no timestamp of `Finalize` is set, and `EndTimer` refuses every user
key known from before. The last condition is needed only for programs that end
a timer they have not begun.
-/

namespace Grvy.Timing

open Std (TreeMap)
open Grvy.Lib Grvy.Lib.TimedTrace

/-- The object `s`, started at `t`, answers as a new object does after every
sequence of calls that satisfies `P`. -/
def CleanFor (P : List (ℚ × Op) → Prop) (t : ℚ) (s : Timer) : Prop :=
  ∀ ops, (∀ e ∈ ops, e.2.Following) → P ops →
    ∃ new new' s', Timer.construct t = .ok new ∧ new.performAll ops = .ok new' ∧
      s.performAll ops = .ok s' ∧ (∀ id ∈ begunBy ops, SameAnswers id s' new') ∧
      ∀ u, (s'.elapsedGlobal u).2 = (new'.elapsedGlobal u).2

/-- The object answers as a new one does after every sequence of calls. -/
def Clean (t : ℚ) (s : Timer) : Prop := CleanFor (fun _ => True) t s

/-- The object answers as a new one does after every sequence of calls that ends
only what it has begun. -/
def CleanIfMatched (t : ℚ) (s : Timer) : Prop := CleanFor (EndsBegun [gtimer]) t s

/-- Nothing that `Reset` leaves is in use. -/
structure Settled (s : Timer) : Prop where
  callgraph : s.callgraph.length ≤ 1
  finalized : s.finalized = false
  timerFinalize : s.timerFinalize ≤ 0

/-- `EndTimer` refuses the key whatever is behind it. -/
def AlwaysRefused (id : TimerId) : Prop := ∀ past, charAt1 past id < 0

/-- Every user key is refused by `EndTimer`. -/
def Unusable (s : Timer) : Prop := ∀ id, id ≠ gtimer → Known s id → AlwaysRefused id

variable {t : ℚ} {s s' new used : Timer} {id : TimerId} {ops : List (ℚ × Op)}

/-! ### The state after Reset -/

/-- The object after `Reset`. -/
def restarted (t : ℚ) (s : Timer) : Timer :=
  { s with
    numBegins := 1
    callgraph := if s.callgraph = [] then [gtimer] else s.callgraph
    timerMap := (s.timerMap.map fun _ d => d.clear).insert gtimer
      (Timer.beginData t (s.timerMap.map fun _ d => d.clear)[gtimer]?) }

theorem reset_eq (t : ℚ) (s : Timer) : s.reset t = .ok (restarted t s) := by
  rw [Timer.reset, begin_gtimer rfl]
  rfl

theorem leftover_clear (d : TimerData) : Leftover d.clear := ⟨rfl, rfl, rfl, rfl⟩

@[simp] theorem restarted_gtimer (t : ℚ) (s : Timer) :
    (restarted t s).timerMap[gtimer]? = some (.first t) := by
  rw [restarted, TreeMap.getElem?_insert_self, TreeMap.getElem?_map]
  cases s.timerMap[gtimer]? <;> rfl

@[simp] theorem restarted_getElem? (t : ℚ) (s : Timer) (hid : id ≠ gtimer) :
    (restarted t s).timerMap[id]? = s.timerMap[id]?.map TimerData.clear := by
  rw [restarted, getElem?_insert_of_ne hid, TreeMap.getElem?_map]

theorem restarted_cleared (t : ℚ) (s : Timer) : Cleared (restarted t s) := by
  intro id d hd
  by_cases hid : id = gtimer
  · rw [hid, restarted_gtimer, Option.some.injEq] at hd
    subst hd
    exact ⟨rfl, rfl, rfl⟩
  · rw [restarted_getElem? t s hid, Option.map_eq_some_iff] at hd
    obtain ⟨d', -, rfl⟩ := hd
    exact ⟨rfl, rfl, rfl⟩

/-- A new object, and one that was settled when it was reset, are alike. -/
theorem restarted_alike (h : Settled used) (hnew : Timer.construct t = .ok new) :
    Alike (fun id => id ≠ gtimer ∧ Known used id) new (restarted t used) := by
  rw [construct_eq] at hnew
  obtain rfl := Except.ok.inj hnew
  refine ⟨rfl, ?_, ?_, h.finalized, Or.inr ⟨h.timerFinalize, neg_one_lt_zero.le⟩, fun id => ?_⟩
  · have hone := h.callgraph
    change (if used.callgraph = [] then [gtimer] else used.callgraph).length = 1
    split
    · rfl
    · rename_i hne
      have hpos := List.length_pos_iff.mpr hne
      omega
  · have hone := h.callgraph
    change (if used.callgraph = [] then [gtimer] else used.callgraph).dropLast = []
    split
    · rfl
    · apply List.eq_nil_of_length_eq_zero
      rw [List.length_dropLast]
      omega
  · by_cases hid : id = gtimer
    · rw [hid, restarted_gtimer, TreeMap.getElem?_insert_self]
      exact Or.inl rfl
    · have hnone : ((∅ : TreeMap TimerId TimerData).insert gtimer (.first t))[id]? = none := by
        rw [getElem?_insert_of_ne hid]
        rfl
      rw [restarted_getElem? t used hid, hnone]
      cases hd : used.timerMap[id]? with
      | none => exact Or.inl rfl
      | some d => exact Or.inr ⟨rfl, ⟨hid, d, hd⟩, d.clear, rfl, leftover_clear d⟩

/-! ### Enough for a clean start -/

theorem cleanFor_of_settled {P : List (ℚ × Op) → Prop} (h : Settled used)
    (hfair : ∀ ops, P ops → Unusable used ∨ EndsBegun [gtimer] ops) :
    CleanFor P t (restarted t used) := by
  intro ops hops hP
  obtain ⟨new, hnew, hsound⟩ := construct_sound t
  obtain ⟨new', s', hnew', hs', halike, hsound', hknown⟩ :=
    (restarted_alike h hnew).performAll [gtimer] hsound
      (fun id hid => List.mem_singleton.mp hid ▸ hsound.global) hops
      ((hfair ops hP).imp_left fun hunusable id past hid => hunusable id hid.1 hid.2 past)
  exact ⟨new, new', s', hnew, hnew', hs',
    fun id hid => halike.sameAnswers (hknown id (List.mem_append_right _ hid)),
    halike.elapsedGlobal hsound'⟩

/-! ### Keys left on the callgraph -/

/-- A call as an operation. -/
def Call.toOp : Call → Op
  | .beginTimer id => .beginTimer id
  | .endTimer id => .endTimer id 0

def toOps (calls : List (ℚ × Call)) : List (ℚ × Op) := calls.map fun e => (e.1, e.2.toOp)

theorem perform_toOp {c : Call} (h : ∀ id, c = .endTimer id → id ≠ []) :
    s.perform t c.toOp = s.call t c := by
  cases c with
  | beginTimer id => rfl
  | endTimer id =>
      cases hc : secondChar id with
      | none => exact absurd (secondChar_eq_none.mp hc) (h id rfl)
      | some c => simp [Call.toOp, Timer.perform, Timer.endTimerPast, hc, Timer.call]

theorem performAll_toOps {calls : List (ℚ × Call)}
    (h : ∀ e ∈ calls, ∀ id, e.2 = .endTimer id → id ≠ []) :
    s.performAll (toOps calls) = s.run calls := by
  induction calls generalizing s with
  | nil => rfl
  | cons event calls ih =>
      obtain ⟨t', c⟩ := event
      rw [toOps, List.map_cons, Timer.performAll, Timer.run,
        perform_toOp (h _ List.mem_cons_self)]
      congr 1
      ext s₁ : 1
      exact ih fun e he => h e (List.mem_cons_of_mem _ he)

theorem performAll_embedded {outer inner : TimerId} (houter : UserId outer)
    (hinner : UserId inner) :
    s.performAll (toOps (embedded outer inner t)) = s.run (embedded outer inner t) := by
  apply performAll_toOps
  intro e he id hid
  simp only [embedded, List.mem_cons, List.not_mem_nil, or_false] at he
  rcases he with rfl | rfl | rfl | rfl
  · cases hid
  · cases hid
  · cases hid
    exact hinner.1
  · cases hid
    exact houter.1

/-- A timer that reports its exclusive time. -/
theorem elapsedSeconds_of_stopped {d : TimerData} (hd : s.timerMap[id]? = some d)
    (hstop : d.timings1 = -1) : (s.elapsedSeconds id true).2 = d.timings0 := by
  have hnot : ¬d.timings1 > 0 := by
    rw [hstop]
    exact not_lt.mpr neg_one_lt_zero.le
  rw [Timer.elapsedSeconds, hd]
  simp only [if_neg hnot, if_true]

theorem elapsedSeconds_of_zero (h : s.timing TimerData.timings0 id = 0) :
    (s.elapsedSeconds id true).2 = 0 := by
  rw [Timer.timing] at h
  rw [Timer.elapsedSeconds]
  cases hd : s.timerMap[id]? with
  | none => rfl
  | some d =>
      rw [hd] at h
      change d.timings0 = 0 at h
      simp only [h, if_true]
      split <;> rfl

/-- With two keys left on the callgraph, one timer embedded in another shows it. -/
theorem not_clean_of_callgraph {P : List (ℚ × Op) → Prop}
    (hP : ∀ ops, EndsBegun [gtimer] ops → P ops) (h : ¬used.callgraph.length ≤ 1) :
    ¬CleanFor P t (restarted t used) := by
  intro hclean
  match hgraph : used.callgraph with
  | [] => simp [hgraph] at h
  | [_] => simp [hgraph] at h
  | x :: y :: rest =>
      have hleft : (restarted t used).callgraph = x :: y :: rest := by
        change (if used.callgraph = [] then [gtimer] else used.callgraph) = _
        rw [if_neg (by simp [hgraph]), hgraph]
      have houter := userId_letters (x.length + y.length)
      have hinner := userId_letters (x.length + y.length + 1)
      have hne : letters (x.length + y.length + 1) ≠ letters (x.length + y.length) :=
        fun h => absurd (letters_injective h) (by omega)
      obtain ⟨new, new', s', hnew, hnew', hs', hids, -⟩ := hclean
        (toOps (embedded (letters (x.length + y.length)) (letters (x.length + y.length + 1)) t))
        (by simp [toOps, embedded, Call.toOp, Op.Following])
        (hP _ (by simp [toOps, embedded, Call.toOp, EndsBegun]))
      rw [performAll_embedded houter hinner] at hnew' hs'
      obtain ⟨d, hd, hone, hstop⟩ := embedded_unpaused houter hinner hne
        (letters_ne (Nat.le_add_right _ _)) (letters_ne (Nat.le_add_left _ _)) rfl hleft
        (restarted_cleared t used) hs'
      obtain ⟨new₀, hnew₀, htracks⟩ := construct_tracks t
      obtain rfl := Except.ok.inj (hnew₀.symm.trans hnew)
      obtain ⟨new₁, hnew₁, haccount⟩ := htracks.accurate _
        (wellNested_embedded houter hinner hne t) (by simp [embedded, Chronological])
      obtain rfl := Except.ok.inj (hnew₁.symm.trans hnew')
      have hzero := haccount.exclusive _ houter.2.2
      rw [exclusiveTime_embedded hne] at hzero
      have hbegun : letters (x.length + y.length) ∈ begunBy (toOps (embedded
          (letters (x.length + y.length)) (letters (x.length + y.length + 1)) t)) :=
        List.mem_cons_self
      have hsame := (hids _ hbegun).1 true
      rw [elapsedSeconds_of_stopped hd hstop, hone, elapsedSeconds_of_zero hzero] at hsame
      exact one_ne_zero hsame

/-! ### The timestamp of Finalize -/

theorem not_clean_of_timerFinalize {P : List (ℚ × Op) → Prop}
    (hP : ∀ ops, EndsBegun [gtimer] ops → P ops) (h : ¬used.timerFinalize ≤ 0) :
    ¬CleanFor P t (restarted t used) := by
  intro hclean
  obtain ⟨new, new', s', hnew, hnew', hs', -, hglobal⟩ :=
    hclean [] (fun e he => by cases he) (hP _ trivial)
  rw [construct_eq] at hnew
  obtain rfl := Except.ok.inj hnew
  obtain rfl := Except.ok.inj hnew'
  obtain rfl := Except.ok.inj hs'
  have hsame := hglobal (used.timerFinalize + 1)
  have hstamp : (restarted t used).timerFinalize > 0 := not_le.mp h
  rw [Timer.elapsedGlobal, Timer.elapsedGlobal, restarted_gtimer, TreeMap.getElem?_insert_self,
    if_pos hstamp, if_neg (by change ¬(-1 : ℚ) > 0; decide)] at hsame
  change _ + (used.timerFinalize + 1 - used.timerFinalize) = _ + 0 at hsame
  rw [add_right_inj, add_sub_cancel_left] at hsame
  exact one_ne_zero hsame

/-! ### The finalized flag -/

/-- The global timer, begun again at once. -/
theorem begin_gtimer_again (hnum : s.numBegins = 1)
    (hg : s.timerMap[gtimer]? = some (.first t)) (h : s.perform t (.beginTimer gtimer) = .ok s') :
    s'.timerMap[gtimer]? = some (.first t) ∧ s'.numBegins = 2 ∧ s'.finalized = s.finalized := by
  have hbegun := Timer.beginTimer_inv h
  refine ⟨?_, by rw [hbegun.numBegins, hnum]; rfl, (beginTimer_frame h).1⟩
  rw [hbegun.self, Timer.surroundingData, if_neg, hg]
  · rfl
  · rintro ⟨htwo, -⟩
    change 2 < s.numBegins + 1 at htwo
    omega

/-- `Summarize` of an object that counts as finalized changes no data. -/
theorem summarize_finalized (hfinal : s.finalized = true)
    (h : s.perform t .summarize = .ok s') : s'.timerMap[id]? = s.timerMap[id]? := by
  rw [perform_summarize, if_pos hfinal] at h
  obtain ⟨s₀, hs₀, h⟩ := exists_of_bind_eq_ok h
  obtain rfl := Except.ok.inj hs₀
  obtain ⟨⟨r, s₁⟩, hreport, h⟩ := exists_of_bind_eq_ok h
  obtain rfl := Except.ok.inj h
  obtain ⟨m, rfl, hm⟩ := report_keeps hreport
  exact hm id

/-- `Summarize` of another object ends the global timer first. -/
theorem summarize_ends {d : TimerData} (hfinal : s.finalized = false) (hnum : s.numBegins ≤ 2)
    (hd : s.timerMap[gtimer]? = some d) (h : s.perform t .summarize = .ok s') :
    s'.timerMap[gtimer]? = some (d.finish t) := by
  rw [perform_summarize, if_neg (by simp [hfinal]), perform_finalize] at h
  obtain ⟨s₁, hfinalize, h⟩ := exists_of_bind_eq_ok h
  obtain ⟨⟨r, s₂⟩, hreport, h⟩ := exists_of_bind_eq_ok h
  obtain rfl := Except.ok.inj h
  obtain ⟨s₀, hend, hfinalize⟩ := exists_of_bind_eq_ok hfinalize
  obtain rfl := Except.ok.inj hfinalize
  obtain ⟨messages, hend⟩ := perform_endTimer_ok hend
  have haccept := endTimerPast_inv hd (charAt1_gtimer 0) hend
  obtain ⟨m, rfl, hm⟩ := report_keeps hreport
  rw [hm, haccept.timerMap, Timer.surroundingData, if_neg]
  · exact TreeMap.getElem?_insert_self
  · rintro ⟨htwo, -⟩
    change 2 < s.numBegins at htwo
    omega

/-- Begin the global timer again and summarize: an object that counts as finalized
leaves it running. -/
theorem not_clean_of_finalized {P : List (ℚ × Op) → Prop}
    (hP : ∀ ops, EndsBegun [gtimer] ops → P ops) (h : ¬used.finalized = false) :
    ¬CleanFor P t (restarted t used) := by
  intro hclean
  obtain ⟨new, new', s', hnew, hnew', hs', hids, -⟩ :=
    hclean [(t, .beginTimer gtimer), (t + 1, .summarize)] (by simp [Op.Following]) (hP _ trivial)
  rw [construct_eq] at hnew
  obtain rfl := Except.ok.inj hnew
  obtain ⟨new₁, hbegin, hnew'⟩ := performAll_cons_ok hnew'
  obtain ⟨new₂, hsum, hnew'⟩ := performAll_cons_ok hnew'
  obtain rfl := Except.ok.inj hnew'
  obtain ⟨s₁, hbegin', hs'⟩ := performAll_cons_ok hs'
  obtain ⟨s₂, hsum', hs'⟩ := performAll_cons_ok hs'
  obtain rfl := Except.ok.inj hs'
  obtain ⟨hg, hnum, hfinal⟩ := begin_gtimer_again rfl TreeMap.getElem?_insert_self hbegin
  obtain ⟨hg', -, hfinal'⟩ := begin_gtimer_again rfl (restarted_gtimer t used) hbegin'
  have hended := summarize_ends hfinal hnum.le hg hsum
  have hkept : s₂.timerMap[gtimer]? = some (.first t) := by
    rw [summarize_finalized (hfinal'.trans (eq_true_of_ne_false h)) hsum', hg']
  have hzero : s₂.timing TimerData.timings0 gtimer = 0 := by
    rw [Timer.timing, hkept]
    rfl
  have hone : ((TimerData.first t).finish (t + 1)).timings0 = 1 := by
    simp [TimerData.finish, TimerData.increment, TimerData.first]
  have hsame := (hids gtimer List.mem_cons_self).1 true
  rw [elapsedSeconds_of_zero hzero, elapsedSeconds_of_stopped hended rfl, hone] at hsame
  exact zero_ne_one hsame

/-! ### Keys known from before -/

/-- `BeginTimer` takes no samples and drops none. -/
theorem begun_samples (h : Timer.Begun id t s s') : s'.samples id = s.samples id := by
  have hsurrounding : (Timer.surroundingData (.pause t)
      { s with numBegins := s.numBegins + 1 } id).map TimerData.stats =
        s.timerMap[id]?.map TimerData.stats := by
    rw [Timer.surroundingData]
    split
    · cases s.timerMap[id]? <;> rfl
    · rfl
  rw [Timer.samples, Timer.samples, ← hsurrounding, h.self]
  cases Timer.surroundingData (.pause t) { s with numBegins := s.numBegins + 1 } id <;> rfl

theorem statsCount_eq (s : Timer) (id : TimerId) : s.statsCount id = (s.samples id).length := by
  rw [Timer.statsCount, Timer.samples]
  cases s.timerMap[id]? <;> rfl

/-- A key that is known from before can be ended before it is begun. -/
theorem not_clean_of_usable (h : ¬Unusable used) : ¬Clean t (restarted t used) := by
  intro hclean
  simp only [Unusable, AlwaysRefused, not_forall] at h
  obtain ⟨id, hid, ⟨d, hd⟩, past, hc⟩ := h
  obtain ⟨new, new', s', hnew, hnew', hs', hids, -⟩ :=
    hclean [(t, .endTimer id past), (t, .beginTimer id)] (by simp [Op.Following]) trivial
  rw [construct_eq] at hnew
  obtain rfl := Except.ok.inj hnew
  obtain ⟨new₁, hend, hnew'⟩ := performAll_cons_ok hnew'
  obtain ⟨new₂, hbegin, hnew'⟩ := performAll_cons_ok hnew'
  obtain rfl := Except.ok.inj hnew'
  obtain ⟨s₁, hend', hs'⟩ := performAll_cons_ok hs'
  obtain ⟨s₂, hbegin', hs'⟩ := performAll_cons_ok hs'
  obtain rfl := Except.ok.inj hs'
  obtain ⟨messages, hend⟩ := perform_endTimer_ok hend
  obtain ⟨messages', hend'⟩ := perform_endTimer_ok hend'
  -- the new object does not know the key
  have hnone : ((∅ : TreeMap TimerId TimerData).insert gtimer (.first t))[id]? = none := by
    rw [getElem?_insert_of_ne hid]
    rfl
  rw [endTimerPast_unknown past t hnone, stamp, if_neg hid, Except.ok.injEq,
    Prod.mk.injEq] at hend
  obtain ⟨-, rfl⟩ := hend
  have hfresh : new₂.samples id = [] := by
    rw [begun_samples (Timer.beginTimer_inv hbegin), Timer.samples, hnone]
    rfl
  -- the other one takes a sample
  have hknown : (restarted t used).timerMap[id]? = some d.clear := by
    rw [restarted_getElem? t used hid, hd]
    rfl
  obtain ⟨x, hx⟩ := (endTimerPast_inv hknown hc hend').samples hknown
  have hsample : s₂.samples id = x :: (restarted t used).samples id := by
    rw [begun_samples (Timer.beginTimer_inv hbegin'), hx]
  have hsame := (hids id List.mem_cons_self).2
  rw [statsCount_eq, statsCount_eq, hsample, hfresh] at hsame
  cases hsame

/-! ### Clean starts -/

/-- What it takes that the object `s`, started at `t` from `used`, is clean. -/
def CleanExactly (t : ℚ) (used s : Timer) : Prop :=
  (Clean t s ↔ Settled used ∧ Unusable used) ∧ (CleanIfMatched t s ↔ Settled used)

theorem restarted_cleanExactly (t : ℚ) (used : Timer) :
    CleanExactly t used (restarted t used) := by
  have hsettled : ∀ P : List (ℚ × Op) → Prop, (∀ ops, EndsBegun [gtimer] ops → P ops) →
      CleanFor P t (restarted t used) → Settled used := by
    intro P hP hclean
    refine ⟨?_, ?_, ?_⟩
    · by_contra h
      exact not_clean_of_callgraph hP h hclean
    · by_contra h
      exact not_clean_of_finalized hP h hclean
    · by_contra h
      exact not_clean_of_timerFinalize hP h hclean
  constructor
  · constructor
    · intro hclean
      refine ⟨hsettled _ (fun _ _ => trivial) hclean, ?_⟩
      by_contra h
      exact not_clean_of_usable h hclean
    · rintro ⟨hsettle, hunusable⟩
      exact cleanFor_of_settled hsettle fun _ _ => Or.inl hunusable
  · constructor
    · exact hsettled _ fun _ hends => hends
    · intro hsettle
      exact cleanFor_of_settled hsettle fun _ hends => Or.inr hends

/-- **Clean start.** An object on which `Reset` or `Init` is called behaves as a
new one if and only if it was settled and all user keys it knew are refused by
`EndTimer`; for programs that end only what they have begun, if and only if it
was settled. -/
theorem clean_start_iff (t : ℚ) (used : Timer) :
    (∃ s, used.reset t = .ok s ∧ CleanExactly t used s) ∧
      ∀ name, ∃ s, used.init name t = .ok s ∧ CleanExactly t used s := by
  refine ⟨⟨_, reset_eq t used, restarted_cleanExactly t used⟩, fun name => ?_⟩
  have hnamed := restarted_cleanExactly t { used with initialized := true, timerName := name }
  refine ⟨_, reset_eq t { used with initialized := true, timerName := name }, ?_⟩
  have hsettle : Settled { used with initialized := true, timerName := name } ↔ Settled used :=
    ⟨fun h => ⟨h.callgraph, h.finalized, h.timerFinalize⟩,
      fun h => ⟨h.callgraph, h.finalized, h.timerFinalize⟩⟩
  have hunusable : Unusable { used with initialized := true, timerName := name } ↔
      Unusable used := Iff.rfl
  rw [CleanExactly, hsettle, hunusable] at hnamed
  exact hnamed

/-- A timer that was finalized and reset still counts the time since then: two
units of time after the reset, `ElapsedGlobal` is five. -/
theorem not_clean_after_finalize :
    ∃ new used s, Timer.construct 0 = .ok new ∧ new.performAll [(5, .finalize)] = .ok used ∧
      used.reset 6 = .ok s ∧ ¬Clean 6 s := by
  have hrun : ∃ new, Timer.construct 0 = .ok new ∧
      ((new.performAll [(5, .finalize)]).toOption.any fun used =>
        (used.reset 6).toOption.any fun s => (s.elapsedGlobal 8).2 = 5) = true :=
    exists_ok_of_any (by decide +kernel)
  obtain ⟨new, hnew, htest⟩ := hrun
  obtain ⟨used, hused, htest⟩ := exists_ok_of_any htest
  obtain ⟨s, hs, hfive⟩ := exists_ok_of_any htest
  refine ⟨new, used, s, hnew, hused, hs, fun hclean => ?_⟩
  obtain ⟨new₆, new', s', hnew₆, hnew', hs', -, hglobal⟩ :=
    hclean [] (fun e he => by cases he) trivial
  obtain rfl := Except.ok.inj hnew'
  obtain rfl := Except.ok.inj hs'
  have htwo : ∃ new₆, Timer.construct 6 = .ok new₆ ∧ decide ((new₆.elapsedGlobal 8).2 = 2) = true :=
    exists_ok_of_any (by decide +kernel)
  obtain ⟨new₀, hnew₀, htwo⟩ := htwo
  obtain rfl := Except.ok.inj (hnew₀.symm.trans hnew₆)
  have hsame := hglobal 8
  rw [of_decide_eq_true hfive, of_decide_eq_true htwo] at hsame
  exact absurd hsame (by decide)

end Grvy.Timing
