import Mathlib.Data.List.Basic
import Grvy.Timing.Lifecycle

/-!
Two timer objects that answer alike.

An object with a past may differ from a new one in the key at the bottom of its
callgraph, which is never read, and in keys it knows from before, as long as
nothing is booked under them. If `EndTimer` is not called for such a key, or
refuses it, the two objects stay alike, and they give the same answers about
all keys that the new one knows.
-/

namespace Grvy.Timing

open Std (TreeMap)
open Grvy.Lib

/-- A call other than `Init` and `Reset`. -/
def Op.Following : Op → Prop
  | .init _ => False
  | .reset => False
  | _ => True

/-- The keys begun by a sequence of operations. -/
def begunBy (ops : List (ℚ × Op)) : List TimerId :=
  ops.filterMap fun e => match e.2 with
    | .beginTimer id => some id
    | _ => none

/-- Each key is begun before it is ended, `begun` being those begun so far. -/
def EndsBegun : List TimerId → List (ℚ × Op) → Prop
  | _, [] => True
  | begun, (_, .beginTimer id) :: ops => EndsBegun (id :: begun) ops
  | begun, (_, .endTimer id _) :: ops => id ∈ begun ∧ EndsBegun begun ops
  | begun, (_, _) :: ops => EndsBegun begun ops

/-! ### The relation -/

/-- Data left by calls of the past, with nothing booked. -/
structure Leftover (d : TimerData) : Prop where
  timings0 : d.timings0 = 0
  timingsInc0 : d.timingsInc0 = 0
  stats : d.stats = []
  statsInc : d.statsInc = []

/-- The data of a key in an object with a past and in a new object: the same, or
left over from the past. `L` says which keys may be left over. -/
def DataAlike (L : TimerId → Prop) (id : TimerId) (old new : Option TimerData) : Prop :=
  old = new ∨ new = none ∧ L id ∧ ∃ d, old = some d ∧ Leftover d

structure Alike (L : TimerId → Prop) (new s : Timer) : Prop where
  numBegins : s.numBegins = new.numBegins
  depth : s.callgraph.length = new.callgraph.length
  /-- The callgraphs agree above the bottom. -/
  above : s.callgraph.dropLast = new.callgraph.dropLast
  finalized : s.finalized = new.finalized
  timerFinalize : s.timerFinalize = new.timerFinalize ∨
    s.timerFinalize ≤ 0 ∧ new.timerFinalize ≤ 0
  data : ∀ id : TimerId, DataAlike L id s.timerMap[id]? new.timerMap[id]?

variable {L : TimerId → Prop} {new new' s s' : Timer} {id : TimerId} {t : ℚ} {past : Int8}

theorem head?_eq_of_dropLast_eq {α : Type*} {l l' : List α} (h : l.dropLast = l'.dropLast)
    (hlen : l.length = l'.length) (htwo : 2 ≤ l.length) : l.head? = l'.head? := by
  match l, l', hlen with
  | x :: y :: rest, x' :: y' :: rest', _ =>
      rw [List.dropLast_cons_cons, List.dropLast_cons_cons, List.cons.injEq] at h
      rw [List.head?_cons, List.head?_cons, h.1]
  | [], _, _ => simp at htwo
  | [_], _, _ => simp at htwo

theorem dropLast_cons_eq {α : Type*} {l l' : List α} (h : l.dropLast = l'.dropLast)
    (hlen : l.length = l'.length) (x : α) : (x :: l).dropLast = (x :: l').dropLast := by
  match l, l', hlen with
  | [], [], _ => rfl
  | y :: rest, y' :: rest', _ => rw [List.dropLast_cons_cons, List.dropLast_cons_cons, h]

theorem dropLast_tail {α : Type*} (l : List α) : l.tail.dropLast = l.dropLast.tail := by
  match l with
  | [] => rfl
  | [_] => rfl
  | _ :: _ :: _ => rfl

theorem DataAlike.of_some {old : Option TimerData} {d : TimerData}
    (h : DataAlike L id old (some d)) : old = some d := by
  rcases h with h | ⟨h, -⟩
  · exact h
  · cases h

/-- What the new object knows, the one with a past knows. -/
theorem Alike.known (h : Alike L new s) (hid : Known new id) : Known s id := by
  obtain ⟨d, hd⟩ := hid
  have hdata := h.data id
  rw [hd] at hdata
  exact ⟨d, hdata.of_some⟩

/-- The surrounding timer is the same in both objects, and it is never one that is
left over. -/
theorem surroundingData_alike (new s : Timer) {f : TimerData → TimerData}
    (hnum : s.numBegins = new.numBegins)
    (hhead : 2 < new.numBegins → s.callgraph.head? = new.callgraph.head?)
    (hknown : ∀ id ∈ new.callgraph, Known new id)
    (hdata : DataAlike L id s.timerMap[id]? new.timerMap[id]?) :
    DataAlike L id (s.surroundingData f id) (new.surroundingData f id) := by
  by_cases hactive : 2 < new.numBegins ∧ new.callgraph.head? = some id
  · have hactive' : 2 < s.numBegins ∧ s.callgraph.head? = some id :=
      ⟨by rw [hnum]; exact hactive.1, by rw [hhead hactive.1]; exact hactive.2⟩
    obtain ⟨d, hd⟩ := hknown id (List.mem_of_head? hactive.2)
    rw [hd] at hdata
    rw [Timer.surroundingData, Timer.surroundingData, if_pos hactive, if_pos hactive', hd,
      hdata.of_some]
    exact Or.inl rfl
  · have hactive' : ¬(2 < s.numBegins ∧ s.callgraph.head? = some id) := by
      rintro ⟨htwo, hid⟩
      rw [hnum] at htwo
      exact hactive ⟨htwo, by rw [← hhead htwo]; exact hid⟩
    rw [Timer.surroundingData, Timer.surroundingData, if_neg hactive, if_neg hactive']
    exact hdata

theorem hasSurrounding_alike (new s : Timer) (hnum : s.numBegins = new.numBegins)
    (hhead : 2 < new.numBegins → s.callgraph.head? = new.callgraph.head?)
    (hknown : ∀ id, Known new id → Known s id) (h : new.HasSurrounding) :
    s.HasSurrounding := by
  intro htwo
  rw [hnum] at htwo
  obtain ⟨x, rest, d, hgraph, hd⟩ := h htwo
  have hx : s.callgraph.head? = some x := by rw [hhead htwo, hgraph, List.head?_cons]
  obtain ⟨rest', hrest⟩ := List.head?_eq_some_iff.mp hx
  obtain ⟨d', hd'⟩ := hknown x ⟨d, hd⟩
  exact ⟨x, rest', d', hrest, hd'⟩

/-- A key left over begins as a new one does. -/
theorem beginData_alike {old fresh : Option TimerData} (h : DataAlike L id old fresh) :
    Timer.beginData t old = Timer.beginData t fresh := by
  rcases h with rfl | ⟨rfl, -, d, rfl, hleft⟩
  · rfl
  · simp only [Timer.beginData, TimerData.restart, TimerData.first]
    rw [hleft.timings0, hleft.timingsInc0, hleft.stats, hleft.statsInc]

/-! ### One call -/

theorem Alike.beginTimer (h : Alike L new s) (hsound : Sound new)
    (hbegin : new.beginTimer id t = .ok new') :
    ∃ s', s.beginTimer id t = .ok s' ∧ Alike L new' s' := by
  have hnum : s.numBegins + 1 = new.numBegins + 1 := by rw [h.numBegins]
  have hhead : 2 < new.numBegins + 1 → s.callgraph.head? = new.callgraph.head? := by
    intro htwo
    have hdepth := hsound.numBegins
    apply head?_eq_of_dropLast_eq h.above h.depth
    rw [h.depth]
    omega
  obtain ⟨s', hs'⟩ := Timer.beginTimer_isOk id t
    (hasSurrounding_alike { new with numBegins := new.numBegins + 1 }
      { s with numBegins := s.numBegins + 1 } hnum hhead (fun _ => h.known)
      hsound.hasSurrounding_next)
  have hbegun := Timer.beginTimer_inv hbegin
  have hbegun' := Timer.beginTimer_inv hs'
  obtain ⟨hfinal, hstamp⟩ := beginTimer_frame hbegin
  obtain ⟨hfinal', hstamp'⟩ := beginTimer_frame hs'
  have hdata : ∀ id', DataAlike L id'
      (Timer.surroundingData (.pause t) { s with numBegins := s.numBegins + 1 } id')
      (Timer.surroundingData (.pause t) { new with numBegins := new.numBegins + 1 } id') :=
    fun id' => surroundingData_alike { new with numBegins := new.numBegins + 1 }
      { s with numBegins := s.numBegins + 1 } hnum hhead hsound.known (h.data id')
  refine ⟨s', hs', ?_, ?_, ?_, ?_, ?_, fun id' => ?_⟩
  · rw [hbegun.numBegins, hbegun'.numBegins, h.numBegins]
  · rw [hbegun.callgraph, hbegun'.callgraph, h.numBegins, h.depth]
    split
    · rw [List.length_cons, List.length_cons, h.depth]
    · exact h.depth
  · rw [hbegun.callgraph, hbegun'.callgraph, h.numBegins, h.depth]
    split
    · exact dropLast_cons_eq h.above h.depth id
    · exact h.above
  · rw [hfinal, hfinal', h.finalized]
  · rw [hstamp, hstamp']
    exact h.timerFinalize
  · by_cases heq : id' = id
    · rw [heq, hbegun.self, hbegun'.self, beginData_alike (hdata id)]
      exact Or.inl rfl
    · rw [hbegun.other id' heq, hbegun'.other id' heq]
      exact hdata id'

theorem Alike.stamp (h : Alike L new s) (id : TimerId) (t : ℚ) :
    Alike L (stamp id t new) (stamp id t s) := by
  refine ⟨by simpa using h.numBegins, by simpa using h.depth, by simpa using h.above,
    by simpa using h.finalized, ?_, by simpa using h.data⟩
  rw [stamp_timerFinalize, stamp_timerFinalize]
  split
  · exact Or.inl rfl
  · exact h.timerFinalize

theorem Alike.ended {d : TimerData} {messages messages' : List Message} (h : Alike L new s)
    (hsound : Sound new) (hended : Accepted id t d new messages new')
    (hended' : Accepted id t d s messages' s') : Alike L new' s' := by
  have hhead : 2 < new.numBegins → s.callgraph.tail.head? = new.callgraph.tail.head? := by
    intro htwo
    have hdepth := hsound.numBegins
    apply head?_eq_of_dropLast_eq
    · rw [dropLast_tail, dropLast_tail, h.above]
    · rw [List.length_tail, List.length_tail, h.depth]
    · rw [List.length_tail, h.depth]
      omega
  refine ⟨?_, ?_, ?_, ?_, ?_, fun id' => ?_⟩
  · rw [hended.numBegins, hended'.numBegins, h.numBegins]
  · rw [hended.callgraph, hended'.callgraph, List.length_tail, List.length_tail, h.depth]
  · rw [hended.callgraph, hended'.callgraph, dropLast_tail, dropLast_tail, h.above]
  · rw [hended.finalized, hended'.finalized, h.finalized]
  · rw [hended.timerFinalize, hended'.timerFinalize]
    split
    · exact Or.inl rfl
    · exact h.timerFinalize
  · rw [hended.timerMap, hended'.timerMap]
    refine surroundingData_alike (new.popped id (d.finish t)) (s.popped id (d.finish t))
      h.numBegins hhead (fun x hx => ?_) ?_
    · exact (hsound.known x (List.mem_of_mem_tail hx)).popped id _
    · rw [Timer.popped, Timer.popped]
      by_cases heq : id' = id
      · rw [heq, TreeMap.getElem?_insert_self, TreeMap.getElem?_insert_self]
        exact Or.inl rfl
      · rw [getElem?_insert_of_ne heq, getElem?_insert_of_ne heq]
        exact h.data id'

/-- `EndTimer` keeps two objects alike if the key is not left over or refused. -/
theorem Alike.endTimerPast {messages : List Message} (h : Alike L new s) (hsound : Sound new)
    (hfair : Known new id ∨ (L id → charAt1 past id < 0))
    (hend : new.endTimerPast past id t = .ok (messages, new')) :
    ∃ messages' s', s.endTimerPast past id t = .ok (messages', s') ∧ Alike L new' s' := by
  have hdata := h.data id
  rcases endTimerPast_cases hend with
    ⟨hnone, -, rfl⟩ | ⟨d, hd, hc, -, hsame⟩ | ⟨d, hd, hc, haccept⟩
  · rcases hdata with heq | ⟨-, hL, d, hd, -⟩
    · exact ⟨_, _, endTimerPast_unknown past t (heq.trans hnone), h.stamp id t⟩
    · -- a key left over: only the object with a past knows it, and refuses it
      have hfair' : L id → charAt1 past id < 0 := by
        rcases hfair with ⟨d', hd'⟩ | hfair
        · rw [hnone] at hd'
          cases hd'
        · exact hfair
      have hne : id ≠ gtimer := by
        rintro rfl
        exact charAt1_gtimer past (hfair' hL)
      rw [Timing.stamp, if_neg hne]
      exact ⟨_, s, endTimerPast_refused t hd (hfair' hL), h⟩
  · rw [hd] at hdata
    rw [hsame]
    exact ⟨_, s, endTimerPast_refused t hdata.of_some hc, h⟩
  · rw [hd] at hdata
    have hd' := hdata.of_some
    have hpop : (s.popped id (d.finish t)).HasSurrounding := by
      refine hasSurrounding_alike (new.popped id (d.finish t)) _ h.numBegins ?_ ?_
        (hsound.popped_hasSurrounding id _)
      · intro htwo
        change 2 < new.numBegins at htwo
        have hdepth := hsound.numBegins
        apply head?_eq_of_dropLast_eq
        · change s.callgraph.tail.dropLast = new.callgraph.tail.dropLast
          rw [dropLast_tail, dropLast_tail, h.above]
        · change s.callgraph.tail.length = new.callgraph.tail.length
          rw [List.length_tail, List.length_tail, h.depth]
        · change 2 ≤ s.callgraph.tail.length
          rw [List.length_tail, h.depth]
          omega
      · intro id' hid'
        by_cases heq : id' = id
        · exact ⟨d.finish t, by rw [heq, Timer.popped, TreeMap.getElem?_insert_self]⟩
        · obtain ⟨d', hd'⟩ := hid'
          rw [Timer.popped, getElem?_insert_of_ne heq] at hd'
          exact (h.known ⟨d', hd'⟩).popped id _
    obtain ⟨messages', s', hend'⟩ := endTimerPast_isOk past t hd' hc hpop
    exact ⟨messages', s', hend', h.ended hsound haccept (endTimerPast_inv hd' hc hend')⟩

theorem Alike.finalize (h : Alike L new s) (hsound : Sound new)
    (hfinal : new.perform t .finalize = .ok new') :
    ∃ s', s.perform t .finalize = .ok s' ∧ Alike L new' s' := by
  rw [perform_finalize] at hfinal
  obtain ⟨new₁, hend, hfinal⟩ := exists_of_bind_eq_ok hfinal
  obtain rfl := Except.ok.inj hfinal
  obtain ⟨messages, hend⟩ := perform_endTimer_ok hend
  obtain ⟨messages', s₁, hend', h'⟩ :=
    h.endTimerPast hsound (Or.inl hsound.global) hend
  refine ⟨{ s₁ with finalized := true }, ?_, h'.numBegins, h'.depth, h'.above, rfl,
    h'.timerFinalize, h'.data⟩
  rw [perform_finalize]
  simp [Timer.perform, hend', bind, Except.bind]

theorem Alike.report {r : Report} (h : Alike L new s) (hsound : Sound new)
    (hreport : new.report = .ok (r, new')) :
    ∃ r' s', s.report = .ok (r', s') ∧ Alike L new' s' := by
  obtain ⟨g, hg⟩ := h.known hsound.global
  obtain ⟨r', s', hreport'⟩ := report_isOk hg
  obtain ⟨m, rfl, hm⟩ := report_keeps hreport
  obtain ⟨m', rfl, hm'⟩ := report_keeps hreport'
  refine ⟨r', _, hreport', h.numBegins, h.depth, h.above, h.finalized, h.timerFinalize,
    fun id => ?_⟩
  change DataAlike L id m'[id]? m[id]?
  rw [hm, hm']
  exact h.data id

/-- Two objects stay alike under every call that follows a start, if `EndTimer` is
called for keys the new object knows or refuses those left over. -/
theorem Alike.perform {op : Op} (h : Alike L new s) (hsound : Sound new) (hop : op.Following)
    (hfair : ∀ id past, op = .endTimer id past →
      Known new id ∨ (L id → charAt1 past id < 0))
    (hnew : new.perform t op = .ok new') :
    ∃ s', s.perform t op = .ok s' ∧ Alike L new' s' := by
  cases op with
  | init name => exact absurd hop id
  | beginTimer id => exact h.beginTimer hsound hnew
  | endTimer id past =>
      obtain ⟨messages, hend⟩ := perform_endTimer_ok hnew
      obtain ⟨messages', s', hend', h'⟩ := h.endTimerPast hsound (hfair id past rfl) hend
      exact ⟨s', by simp [Timer.perform, hend', bind, Except.bind], h'⟩
  | reset => exact absurd hop id
  | finalize => exact h.finalize hsound hnew
  | summarize =>
      rw [perform_summarize] at hnew
      obtain ⟨new₁, hfirst, hnew⟩ := exists_of_bind_eq_ok hnew
      obtain ⟨⟨r, new₂⟩, hreport, hnew⟩ := exists_of_bind_eq_ok hnew
      obtain rfl := Except.ok.inj hnew
      have hfirst' : ∃ s₁, (if s.finalized then .ok s else s.perform t .finalize) = .ok s₁ ∧
          Alike L new₁ s₁ ∧ Sound new₁ := by
        rw [h.finalized]
        split at hfirst
        · rename_i hdone
          obtain rfl := Except.ok.inj hfirst
          exact ⟨s, if_pos hdone, h, hsound⟩
        · rename_i hopen
          obtain ⟨s₁, hs₁, h₁⟩ := h.finalize hsound hfirst
          obtain ⟨new₂', hnew₂, hsound₁⟩ := hsound.perform t .finalize
          obtain rfl := Except.ok.inj (hnew₂.symm.trans hfirst)
          exact ⟨s₁, (if_neg hopen).trans hs₁, h₁, hsound₁⟩
      obtain ⟨s₁, hs₁, h₁, hsound₁⟩ := hfirst'
      obtain ⟨r', s', hreport', h'⟩ := h₁.report hsound₁ hreport
      refine ⟨s', ?_, h'⟩
      rw [perform_summarize, hs₁]
      simp [bind, Except.bind, hreport']
  | elapsedSeconds id exclusive => exact ⟨s, rfl, Except.ok.inj hnew ▸ h⟩
  | elapsedGlobal => exact ⟨s, rfl, Except.ok.inj hnew ▸ h⟩

/-! ### A sequence of calls -/

/-- Two objects stay alike under a sequence of calls that follows a start, if keys
left over are refused or each key is begun before it is ended. In the end the
new object knows every key that was begun. -/
theorem Alike.performAll (begun : List TimerId) {ops : List (ℚ × Op)} (h : Alike L new s)
    (hsound : Sound new) (hbegun : ∀ id ∈ begun, Known new id)
    (hops : ∀ e ∈ ops, e.2.Following)
    (hfair : (∀ id past, L id → charAt1 past id < 0) ∨ EndsBegun begun ops) :
    ∃ new' s', new.performAll ops = .ok new' ∧ s.performAll ops = .ok s' ∧ Alike L new' s' ∧
      Sound new' ∧ ∀ id ∈ begun ++ begunBy ops, Known new' id := by
  induction ops generalizing new s begun with
  | nil => exact ⟨new, s, rfl, rfl, h, hsound, by simpa [begunBy] using hbegun⟩
  | cons event ops ih =>
      obtain ⟨t, op⟩ := event
      obtain ⟨new₁, hnew₁, hsound₁⟩ := hsound.perform t op
      have hone : ∀ id past, op = .endTimer id past →
          Known new id ∨ (L id → charAt1 past id < 0) := by
        rintro id past rfl
        rcases hfair with hrefused | hends
        · exact Or.inr (hrefused id past)
        · exact Or.inl (hbegun id hends.1)
      obtain ⟨s₁, hs₁, h₁⟩ := h.perform hsound (hops _ List.mem_cons_self) hone hnew₁
      have hrest : ∃ begun', (∀ id ∈ begun', Known new₁ id) ∧
          ((∀ id past, L id → charAt1 past id < 0) ∨ EndsBegun begun' ops) ∧
          ∀ id ∈ begun ++ begunBy ((t, op) :: ops), id ∈ begun' ++ begunBy ops := by
        have hkeep : ∀ id ∈ begun, Known new₁ id := fun id hid => (hbegun id hid).perform hnew₁
        cases op with
        | beginTimer x =>
            refine ⟨x :: begun, fun id hid => ?_, hfair.imp_right fun hends => hends,
              fun id hid => ?_⟩
            · rcases List.mem_cons.mp hid with rfl | hid
              · exact ⟨_, (Timer.beginTimer_inv hnew₁).self⟩
              · exact hkeep id hid
            · simp only [begunBy, List.filterMap_cons, List.mem_append, List.mem_cons] at hid ⊢
              tauto
        | endTimer x past =>
            exact ⟨begun, hkeep, hfair.imp_right fun hends => hends.2, fun id hid => hid⟩
        | init name => exact ⟨begun, hkeep, hfair.imp_right fun hends => hends, fun id hid => hid⟩
        | reset => exact ⟨begun, hkeep, hfair.imp_right fun hends => hends, fun id hid => hid⟩
        | finalize => exact ⟨begun, hkeep, hfair.imp_right fun hends => hends, fun id hid => hid⟩
        | summarize => exact ⟨begun, hkeep, hfair.imp_right fun hends => hends, fun id hid => hid⟩
        | elapsedSeconds x exclusive =>
            exact ⟨begun, hkeep, hfair.imp_right fun hends => hends, fun id hid => hid⟩
        | elapsedGlobal =>
            exact ⟨begun, hkeep, hfair.imp_right fun hends => hends, fun id hid => hid⟩
      obtain ⟨begun', hbegun', hfair', hmem⟩ := hrest
      obtain ⟨new', s', hnew', hs', h', hsound', hknown⟩ :=
        ih begun' h₁ hsound₁ hbegun' (fun e he => hops e (List.mem_cons_of_mem _ he)) hfair'
      refine ⟨new', s', ?_, ?_, h', hsound', fun id hid => hknown id (hmem id hid)⟩
      · rw [Timer.performAll, hnew₁]
        exact hnew'
      · rw [Timer.performAll, hs₁]
        exact hs'

/-! ### Answers -/

/-- Two objects give the same answers about a key. -/
def SameAnswers (id : TimerId) (s s' : Timer) : Prop :=
  (∀ exclusive, (s.elapsedSeconds id exclusive).2 = (s'.elapsedSeconds id exclusive).2) ∧
    s.statsCount id = s'.statsCount id

theorem Alike.sameAnswers (h : Alike L new s) (hid : Known new id) : SameAnswers id s new := by
  obtain ⟨d, hd⟩ := hid
  have hdata := h.data id
  rw [hd] at hdata
  have heq : s.timerMap[id]? = new.timerMap[id]? := hdata.of_some.trans hd.symm
  refine ⟨fun exclusive => ?_, ?_⟩
  · rw [Timer.elapsedSeconds, Timer.elapsedSeconds, heq]
  · rw [Timer.statsCount, Timer.statsCount, heq]

theorem Alike.elapsedGlobal (h : Alike L new s) (hsound : Sound new) (u : ℚ) :
    (s.elapsedGlobal u).2 = (new.elapsedGlobal u).2 := by
  obtain ⟨g, hg⟩ := hsound.global
  have hdata := h.data gtimer
  rw [hg] at hdata
  rw [Timer.elapsedGlobal, Timer.elapsedGlobal, hg, hdata.of_some]
  rcases h.timerFinalize with heq | ⟨hs, hnew⟩
  · rw [heq]
  · rw [if_neg (not_lt.mpr hs), if_neg (not_lt.mpr hnew)]

end Grvy.Timing
