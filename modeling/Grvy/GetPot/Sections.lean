import Grvy.Lib.Fuel
import Grvy.GetPot.Scanner

/-!
Section labels: `__process_section_label`.

The sections that are open are a stack. A label names a path from the stack, from one of its
parents or from the root. The loop that takes the path apart goes back to its beginning
behind each slash, but it only cuts off what it has read if more than one character is left.
So it goes on for ever if one of the last two characters is a slash, and puts the path on the
stack otherwise.
-/

namespace Grvy.GetPot

open Grvy.Lib

variable {stack : List CText} {sname w rest label : CText}

/-- Every `../` takes a section off the stack. -/
def popParents (stack : List CText) : CText → List CText × CText
  | '.' :: '.' :: '/' :: sname => popParents stack.dropLast sname
  | sname => (stack, sname)

/-- Where a path begins, and the path. -/
def labelStart (stack : List CText) : CText → List CText × CText
  | '.' :: '/' :: sname => (stack, sname)
  | '.' :: '.' :: '/' :: sname => popParents stack.dropLast sname
  | sname => ([], sname)

structure LabelState where
  sectionStack : List CText
  sname : CText
  i : ℕ

/-- A round of the loop that looks for slashes. -/
def labelStep (s : LabelState) : LabelState ⊕ List CText :=
  match s.sname[s.i]? with
  | none => .inr (s.sectionStack ++ [s.sname])
  | some c =>
      if c = '/' then
        .inl {
          sectionStack := s.sectionStack ++ [s.sname.take s.i]
          sname := if s.i + 1 < s.sname.length - 1 then s.sname.drop (s.i + 1) else s.sname
          i := 0 }
      else .inl { s with i := s.i + 1 }

/-- The text in front of the names in a section. -/
def sectionText (stack : List CText) : CText := stack.flatMap fun name => name ++ ['/']

/-- `__process_section_label`: the section and the new stack. -/
def processSectionLabel (fuel : ℕ) (label : CText) (stack : List CText) :
    Option (CText × List CText) :=
  let start := labelStart stack label
  let stack' :=
    if start.2 = [] then some start.1 else runLoop labelStep fuel ⟨start.1, start.2, 0⟩
  stack'.map fun s => (sectionText s, s)

theorem stable_processSectionLabel (label : CText) (stack : List CText) :
    Stable fun fuel => processSectionLabel fuel label stack := by
  simp only [processSectionLabel]
  by_cases hnil : (labelStart stack label).2 = []
  · simp only [if_pos hnil]
    exact (stable_const _).map _
  · simp only [if_neg hnil]
    exact (stable_runLoop labelStep _).map _

/-! ### When the loop ends -/

def lastTwo (sname : CText) : CText := sname.drop (sname.length - 2)

theorem mem_lastTwo_cons {c x : Char} :
    x ∈ lastTwo (c :: rest) ↔ x ∈ lastTwo rest ∨ (x = c ∧ rest.length < 2) := by
  rw [lastTwo, lastTwo, List.length_cons]
  by_cases hlength : rest.length < 2
  · have h : rest.length + 1 - 2 = 0 := by omega
    have h' : rest.length - 2 = 0 := by omega
    rw [h, h', List.drop_zero, List.drop_zero, List.mem_cons]
    simp only [hlength, and_true]
    exact or_comm
  · have h : rest.length + 1 - 2 = rest.length - 2 + 1 := by omega
    rw [h, List.drop_succ_cons]
    simp only [hlength, and_false, or_false]

theorem getElem?_labelState {c : Char} : (w ++ c :: rest)[w.length]? = some c := by
  rw [List.getElem?_append_right (Nat.le_refl _), Nat.sub_self, List.getElem?_cons_zero]

/-- A slash with less than two characters behind it is found again and again. -/
theorem labelStep_slash (hw : '/' ∉ w) (hrest : rest.length < 2) (s : LabelState)
    (hs : s.sname = w ++ '/' :: rest ∧ s.i ≤ w.length) :
    ∃ s', labelStep s = .inl s' ∧ s'.sname = w ++ '/' :: rest ∧ s'.i ≤ w.length := by
  obtain ⟨hname, hi⟩ := hs
  rcases Nat.lt_or_eq_of_le hi with hlt | heq
  · -- the slash is further on
    have hget : s.sname[s.i]? = some w[s.i] := by
      rw [hname, List.getElem?_append_left hlt, List.getElem?_eq_getElem hlt]
    have hc : w[s.i] ≠ '/' := fun h => hw (h ▸ List.getElem_mem hlt)
    refine ⟨{ s with i := s.i + 1 }, ?_, hname, hlt⟩
    simp only [labelStep, hget, if_neg hc]
  · have hget : s.sname[s.i]? = some '/' := by rw [hname, heq, getElem?_labelState]
    have hlength : s.sname.length = w.length + (rest.length + 1) := by
      rw [hname, List.length_append, List.length_cons]
    refine ⟨⟨s.sectionStack ++ [s.sname.take s.i], s.sname, 0⟩, ?_, hname, Nat.zero_le _⟩
    simp only [labelStep, hget, if_true]
    rw [if_neg (by omega)]

/-- What the loop has read of `sname` is `w`, without a slash. -/
theorem leaves_labelStep_iff (hw : '/' ∉ w) {r : List CText} :
    Leaves labelStep ⟨stack, w ++ rest, w.length⟩ r ↔
      '/' ∉ lastTwo rest ∧ r = stack ++ (w ++ rest).splitOnP (· = '/') := by
  induction rest generalizing w stack with
  | nil =>
      have hsplit : w.splitOnP (· = '/') = [w] :=
        List.splitOnP_eq_singleton fun x hx => decide_eq_false fun heq => hw (heq ▸ hx)
      have hstep : labelStep ⟨stack, w ++ [], w.length⟩ = .inr (stack ++ [w]) := by
        simp [labelStep]
      rw [leaves_of_inr_iff hstep, List.append_nil, hsplit]
      simp [lastTwo]
  | cons c rest ih =>
      rw [mem_lastTwo_cons]
      by_cases hc : c = '/'
      · subst hc
        by_cases hlength : rest.length < 2
        · refine iff_of_false ?_ fun h => h.1 (.inr ⟨rfl, hlength⟩)
          exact not_leaves (labelStep_slash hw hlength) ⟨rfl, Nat.le_refl _⟩ r
        · have hstep : labelStep ⟨stack, w ++ '/' :: rest, w.length⟩ =
              .inl ⟨stack ++ [w], [] ++ rest, ([] : CText).length⟩ := by
            simp only [labelStep, getElem?_labelState, if_true]
            rw [if_pos (by rw [List.length_append, List.length_cons]; omega)]
            simp
          rw [leaves_of_inl hstep, ih List.not_mem_nil]
          have hsplit : (w ++ '/' :: rest).splitOnP (· = '/') =
              w :: rest.splitOnP (· = '/') := by
            rw [List.splitOnP_append_cons _ _ (by simp), List.splitOnP_eq_singleton]
            · rfl
            · exact fun x hx => decide_eq_false fun heq => hw (heq ▸ hx)
          simp [hsplit, hlength]
      · have hstep : labelStep ⟨stack, w ++ c :: rest, w.length⟩ =
            .inl ⟨stack, (w ++ [c]) ++ rest, (w ++ [c]).length⟩ := by
          simp only [labelStep, getElem?_labelState, if_neg hc]
          simp
        have hw' : '/' ∉ w ++ [c] := by simp [hw, Ne.symm hc]
        rw [leaves_of_inl hstep, ih hw']
        simp [Ne.symm hc]

/-! ### Where a label leads -/

/-- The names in a path. -/
def labelNames (sname : CText) : List CText :=
  if sname = [] then [] else sname.splitOnP (· = '/')

/-- The stack that a label asks for. -/
def labelTarget (stack : List CText) (label : CText) : List CText :=
  (labelStart stack label).1 ++ labelNames (labelStart stack label).2

theorem popParents_snd (stack stack' : List CText) (label : CText) :
    (popParents stack label).2 = (popParents stack' label).2 := by
  fun_induction popParents stack label generalizing stack' with
  | case1 stack sname ih =>
      rw [popParents]
      exact ih stack'.dropLast
  | case2 stack sname h =>
      rw [popParents]
      exact h

/-- Which path a label names does not depend on the stack. -/
theorem labelStart_snd (stack stack' : List CText) (label : CText) :
    (labelStart stack label).2 = (labelStart stack' label).2 := by
  fun_cases labelStart stack label with
  | case1 sname => rfl
  | case2 sname => exact popParents_snd _ _ sname
  | case3 sname hhere hup =>
      rw [labelStart]
      · exact hhere
      · exact hup

/-- No slash is among the last two characters of the path. -/
def LabelEnds (label : CText) : Prop := '/' ∉ lastTwo (labelStart [] label).2

instance (label : CText) : Decidable (LabelEnds label) := inferInstanceAs (Decidable (¬_))

/-- A label is processed if and only if no slash is among the last two characters of its
path, and then the stack is the one it asks for. -/
theorem processSectionLabel_settles_iff (label : CText) (stack : List CText)
    (r : CText × List CText) :
    Settles (fun fuel => processSectionLabel fuel label stack) r ↔
      LabelEnds label ∧ r = (sectionText (labelTarget stack label), labelTarget stack label) := by
  have hinj : Function.Injective fun s : List CText => (sectionText s, s) :=
    fun s s' h => congrArg Prod.snd h
  have hpath : LabelEnds label ↔ '/' ∉ lastTwo (labelStart stack label).2 := by
    rw [LabelEnds, labelStart_snd [] stack label]
  simp only [processSectionLabel, settles_map_iff hinj]
  rw [hpath, labelTarget, labelNames]
  by_cases hnil : (labelStart stack label).2 = []
  · simp [hnil, settles_const_iff, lastTwo, eq_comm]
  · have hloop (s : List CText) :
        Leaves labelStep ⟨(labelStart stack label).1, (labelStart stack label).2, 0⟩ s ↔ _ :=
      leaves_labelStep_iff (w := []) List.not_mem_nil
    simp only [if_neg hnil]
    constructor
    · rintro ⟨s, hs, rfl⟩
      obtain ⟨hend, rfl⟩ := (hloop s).mp hs
      exact ⟨hend, rfl⟩
    · rintro ⟨hend, rfl⟩
      exact ⟨_, (hloop _).mpr ⟨hend, rfl⟩, rfl⟩

end Grvy.GetPot
