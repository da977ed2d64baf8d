import Grvy.Timing.PureReport

/-!
The names in the report of `Summarize`.

The first column is as wide as the longest id, and at most 75 characters
narrower than the output. The description may widen it further. Names that do
not fit are cut: the description to the 12 characters after the column, an id
to one character less than the column. The ellipsis that tells the user is
added to both from the same length on, 14 characters above the column; so the
ids in between are cut without one, and so is the description at exactly 13.
Names are printed as C strings, which end at a null character.
-/

namespace Grvy.Timing

open Std (TreeMap)
open Grvy.Lib

/-! ### The width of the output -/

/-- `max_stdout_width`. -/
structure StdoutWidth where
  chars : ℕ
  minWidth_le : 120 ≤ chars

def StdoutWidth.initial : StdoutWidth := { chars := 120, minWidth_le := Nat.le_refl 120 }

/-- The new width, or the error printed before 1 is returned. -/
def setSummarizeWidth (width : ℤ) : Except String StdoutWidth :=
  if h : width ≤ 120 then
    .error "stdout minimum width is 120 characters "
  else
    .ok { chars := width.toNat, minWidth_le := by omega }

/-- There are no other widths than the accepted ones and the initial one. -/
theorem StdoutWidth.initial_or_accepted (w : StdoutWidth) :
    w = .initial ∨ setSummarizeWidth w.chars = .ok w := by
  obtain ⟨chars, hmin⟩ := w
  rcases Nat.lt_or_eq_of_le hmin with hlt | rfl
  · right
    rw [setSummarizeWidth, dif_neg (by change ¬(chars : ℤ) ≤ 120; omega)]
    rfl
  · exact Or.inl rfl

/-! ### The width of the column -/

/-- Update the width if an identifier is longer than it. -/
def widenForId (w : StdoutWidth) (displayIdWidth : ℕ) (id : TimerId) : ℕ :=
  min (max displayIdWidth (id.length + 1)) (w.chars - 35 - 40)

/-- `display_id_width` when the report is printed. No `int` in its computation exceeds
the width of the output. -/
def displayIdWidth (w : StdoutWidth) (timerName : List UInt8) (ids : List TimerId) : ℕ :=
  let displayIdWidth := ids.foldl (widenForId w) 20
  if timerName.length + 23 > displayIdWidth + 35 then
    min (w.chars - 40) (timerName.length + 23) - 35
  else displayIdWidth

/-! ### Cutting a name -/

def ellipsis : List UInt8 := key "..."

/-- `AddEllipsis` overwrites the last three characters. -/
def addEllipsis (name : List UInt8) : List UInt8 :=
  ((name.set (name.length - 1) 46).set (name.length - 2) 46).set (name.length - 3) 46

/-- What `%s` prints of `c_str()`. -/
def cText (name : List UInt8) : List UInt8 := name.takeWhile (· ≠ 0)

/-- A name cut to some length, with an ellipsis if it is longer than a limit. -/
def shorten (cut limit : ℕ) (name : List UInt8) : List UInt8 :=
  let varstring := name.take cut
  if name.length > limit then addEllipsis varstring else varstring

/-- The description in a report whose first column is `width` wide. -/
def shortenDescription (width : ℕ) (timerName : List UInt8) : List UInt8 :=
  let maxTimerNameWidth := width + 13
  shorten (maxTimerNameWidth - 1) maxTimerNameWidth timerName

/-- The id of a user timer. -/
def shortenId (width : ℕ) (id : TimerId) : List UInt8 :=
  let maxTimerNameWidth := width + 13
  shorten (width - 1) maxTimerNameWidth id

/-- The names that a report prints, with the user timers that have a line. The key of the
global timer is never cut. -/
structure PrintedNames where
  description : List UInt8
  ids : List (TimerId × List UInt8)
  globalKey : List UInt8

def printedNames (w : StdoutWidth) (timerName : List UInt8) (s : Timer) : PrintedNames :=
  let width := displayIdWidth w timerName (userIds s)
  { description := cText (shortenDescription width timerName)
    ids := s.sortHL.map fun e => (e.2, cText (shortenId width e.2))
    globalKey := gtimer }

/-! ### Marked names -/

/-- A name is printed in full, or what is printed is shorter: a part of it from the start
whose last three characters are an ellipsis. -/
def Marked (original printed : List UInt8) : Prop :=
  if printed.length < original.length then
    ∃ n, 3 ≤ n ∧ n < original.length ∧ printed = original.take (n - 3) ++ ellipsis
  else printed = original

theorem addEllipsis_eq {name : List UInt8} (h : 3 ≤ name.length) :
    addEllipsis name = name.take (name.length - 3) ++ ellipsis := by
  obtain ⟨front, back, rfl, hback⟩ : ∃ front back, name = front ++ back ∧ back.length = 3 :=
    ⟨name.take (name.length - 3), name.drop (name.length - 3), (List.take_append_drop _ _).symm,
      by rw [List.length_drop]; omega⟩
  match back, hback with
  | [x, y, z], _ => simp [addEllipsis, ellipsis, key]

/-- The part of a name up to some length happens to end in three dots of its own. -/
def DotsBefore (cut : ℕ) (name : List UInt8) : Prop :=
  3 ≤ cut ∧ (name.drop (cut - 3)).take 3 = ellipsis

instance (cut : ℕ) (name : List UInt8) : Decidable (DotsBefore cut name) :=
  inferInstanceAs (Decidable (_ ∧ _))

/-- Without an ellipsis, what is lost is not marked. -/
theorem marked_take_iff {name : List UInt8} {cut : ℕ} (hlost : cut < name.length) :
    Marked name (name.take cut) ↔ DotsBefore cut name := by
  have hlength : (name.take cut).length = cut := List.length_take_of_le hlost.le
  have hsplit : 3 ≤ cut →
      name.take cut = name.take (cut - 3) ++ (name.drop (cut - 3)).take 3 := fun hcut => by
    rw [← List.take_add]
    congr 1
    omega
  rw [Marked, hlength, if_pos hlost, DotsBefore]
  constructor
  · rintro ⟨n, hn, hlt, heq⟩
    -- as long as what is printed, the marked part can only be the part kept
    have hlen := congrArg List.length heq
    have hdots : ellipsis.length = 3 := rfl
    rw [hlength, List.length_append, List.length_take, hdots] at hlen
    obtain rfl : n = cut := by omega
    rw [hsplit hn, List.append_cancel_left_eq] at heq
    exact ⟨hn, heq⟩
  · rintro ⟨hcut, hdots⟩
    refine ⟨cut, hcut, hlost, ?_⟩
    rw [hsplit hcut, hdots]

/-! ### C strings -/

theorem cText_eq_take (name : List UInt8) : cText name = name.take (cText name).length :=
  List.prefix_iff_eq_take.mp (List.takeWhile_prefix _)

theorem length_cText_le (name : List UInt8) : (cText name).length ≤ name.length :=
  (List.takeWhile_prefix _).length_le

@[simp] theorem cText_take (name : List UInt8) (cut : ℕ) :
    cText (name.take cut) = name.take (min cut (cText name).length) := by
  calc cText (name.take cut) = (cText name).take cut := List.take_takeWhile.symm
    _ = name.take (min cut (cText name).length) := by
      rw [cText_eq_take, List.take_take, ← cText_eq_take]

/-- The dots come after what was kept, unless a null character comes before them. -/
theorem cText_take_append_ellipsis {name : List UInt8} {cut : ℕ} (hcut : cut ≤ name.length) :
    cText (name.take cut ++ ellipsis) =
      if cut ≤ (cText name).length then name.take cut ++ ellipsis
      else name.take (cText name).length := by
  have hlength : (cText (name.take cut)).length = min cut (cText name).length := by
    have hle := length_cText_le name
    rw [cText_take, List.length_take]
    omega
  have happend : cText (name.take cut ++ ellipsis) =
      if (cText (name.take cut)).length = (name.take cut).length then
        name.take cut ++ cText ellipsis
      else cText (name.take cut) := List.takeWhile_append
  rw [happend, hlength, List.length_take_of_le hcut]
  by_cases hkept : cut ≤ (cText name).length
  · rw [if_pos (Nat.min_eq_left hkept), if_pos hkept]
    rfl
  · rw [if_neg (by omega), if_neg hkept, cText_take, Nat.min_eq_right (by omega)]

/-! ### The mark of a name -/

/-- A name that is cut above a length, and gets an ellipsis above a limit, is printed in full or
keeps the ellipsis, or what is printed of it ends in three dots of its own. -/
def KeepsMark (cut limit : ℕ) (name : List UInt8) : Prop :=
  ((cText name).length = name.length ∧ name.length ≤ cut) ∨
    (limit < name.length ∧ cut - 3 ≤ (cText name).length) ∨
    DotsBefore (min cut (cText name).length) name

instance (cut limit : ℕ) (name : List UInt8) : Decidable (KeepsMark cut limit name) :=
  inferInstanceAs (Decidable (_ ∨ _))

theorem marked_shorten_iff {cut limit : ℕ} (hcut : 3 ≤ cut) (hle : cut ≤ limit)
    (name : List UInt8) :
    Marked name (cText (shorten cut limit name)) ↔ KeepsMark cut limit name := by
  have htext := length_cText_le name
  rw [KeepsMark, shorten]
  rcases Nat.lt_or_ge limit name.length with hlong | hshort
  · have hlength : (name.take cut).length = cut := List.length_take_of_le (by omega)
    rw [if_pos hlong, addEllipsis_eq (hlength.symm ▸ hcut), hlength, List.take_take,
      Nat.min_eq_left (Nat.sub_le cut 3), cText_take_append_ellipsis (by omega)]
    by_cases hkept : cut - 3 ≤ (cText name).length
    · rw [if_pos hkept, Marked, List.length_append, List.length_take_of_le (by omega), if_pos]
      · exact iff_of_true ⟨cut, hcut, by omega, rfl⟩ (Or.inr (Or.inl ⟨hlong, hkept⟩))
      · change cut - 3 + 3 < name.length
        omega
    · rw [if_neg hkept, marked_take_iff (by omega), Nat.min_eq_right (by omega)]
      constructor
      · exact fun hdots => Or.inr (Or.inr hdots)
      · rintro (⟨-, hall⟩ | ⟨-, hkept'⟩ | hdots)
        · omega
        · exact absurd hkept' hkept
        · exact hdots
  · rw [if_neg (Nat.not_lt.mpr hshort), cText_take]
    by_cases hall : (cText name).length = name.length ∧ name.length ≤ cut
    · rw [List.take_of_length_le (by omega), Marked, if_neg (Nat.lt_irrefl _)]
      exact iff_of_true rfl (Or.inl hall)
    · rw [marked_take_iff (by omega)]
      constructor
      · exact fun hdots => Or.inr (Or.inr hdots)
      · rintro (hall' | ⟨hlong, -⟩ | hdots)
        · exact absurd hall' hall
        · omega
        · exact hdots

/-- A name that is not cut is marked as well as any. -/
theorem keepsMark_of_le {cut limit : ℕ} {name : List UInt8} (hcut : name.length ≤ cut)
    (hlimit : name.length ≤ limit) :
    KeepsMark cut limit name ↔
      (cText name).length = name.length ∨ DotsBefore (cText name).length name := by
  have htext := length_cText_le name
  rw [KeepsMark, Nat.min_eq_right (by omega)]
  constructor
  · rintro (⟨hall, -⟩ | ⟨hlong, -⟩ | hdots)
    · exact Or.inl hall
    · omega
    · exact Or.inr hdots
  · rintro (hall | hdots)
    · exact Or.inl ⟨hall, hcut⟩
    · exact Or.inr (Or.inr hdots)

/-! ### The column and the names -/

theorem foldl_widenForId (w : StdoutWidth) (ids : List TimerId) {width : ℕ}
    (hmin : 20 ≤ width) (hmax : width ≤ w.chars - 75) :
    width ≤ ids.foldl (widenForId w) width ∧
      ids.foldl (widenForId w) width ≤ w.chars - 75 ∧
      ∀ id ∈ ids, min (id.length + 1) (w.chars - 75) ≤ ids.foldl (widenForId w) width := by
  induction ids generalizing width with
  | nil => exact ⟨Nat.le_refl _, hmax, fun id hid => absurd hid List.not_mem_nil⟩
  | cons id ids ih =>
      have hstep : width ≤ widenForId w width id ∧ widenForId w width id ≤ w.chars - 75 ∧
          min (id.length + 1) (w.chars - 75) ≤ widenForId w width id := by
        unfold widenForId
        omega
      obtain ⟨hwiden, hcap, hself⟩ := hstep
      obtain ⟨hle, hle', hids⟩ := ih (by omega) hcap
      refine ⟨hwiden.trans hle, hle', fun id' hid' => ?_⟩
      rcases List.mem_cons.mp hid' with rfl | hid'
      · exact hself.trans hle
      · exact hids id' hid'

/-- The column holds every id, or it is as wide as the output allows; and it is that wide
when the description is more than 12 characters longer. -/
theorem displayIdWidth_spec (w : StdoutWidth) (timerName : List UInt8) (ids : List TimerId) :
    20 ≤ displayIdWidth w timerName ids ∧ displayIdWidth w timerName ids ≤ w.chars - 75 ∧
      (∀ id ∈ ids, min (id.length + 1) (w.chars - 75) ≤ displayIdWidth w timerName ids) ∧
      (displayIdWidth w timerName ids + 13 ≤ timerName.length →
        displayIdWidth w timerName ids = w.chars - 75) := by
  have hw := w.minWidth_le
  obtain ⟨hmin, hmax, hids⟩ := foldl_widenForId w ids (Nat.le_refl 20) (by omega)
  simp only [displayIdWidth]
  split
  · refine ⟨by omega, by omega, fun id hid => ?_, by omega⟩
    have hid := hids id hid
    omega
  · exact ⟨hmin, hmax, hids, by omega⟩

/-- What the report promises about the names: the first column leaves the rest of the line
its place, each user timer has a line, and no name is shortened unmarked. -/
structure NamesMarked (w : StdoutWidth) (timerName : List UInt8) (s : Timer) : Prop where
  fits : displayIdWidth w timerName (userIds s) + 75 ≤ w.chars
  description : Marked timerName (printedNames w timerName s).description
  ids : ∀ id ∈ userIds s, ∃ text, (id, text) ∈ (printedNames w timerName s).ids ∧ Marked id text

theorem marked_description_iff (w : StdoutWidth) (timerName : List UInt8) (s : Timer) :
    Marked timerName (printedNames w timerName s).description ↔
      KeepsMark (w.chars - 63) (w.chars - 62) timerName := by
  obtain ⟨hmin, hmax, -, hwide⟩ := displayIdWidth_spec w timerName (userIds s)
  have hw := w.minWidth_le
  simp only [printedNames, shortenDescription]
  rw [marked_shorten_iff (by omega) (by omega)]
  rcases Nat.lt_or_ge timerName.length (displayIdWidth w timerName (userIds s) + 13) with
    hfits | hcut
  · rw [keepsMark_of_le (by omega) (by omega), keepsMark_of_le (by omega) (by omega)]
  · have hcut : displayIdWidth w timerName (userIds s) + 13 - 1 = w.chars - 63 := by
      have := hwide hcut
      omega
    have hlimit : displayIdWidth w timerName (userIds s) + 13 = w.chars - 62 := by omega
    rw [hcut, hlimit]

theorem marked_shortenId_iff (w : StdoutWidth) (timerName : List UInt8) {ids : List TimerId}
    {id : TimerId} (hid : id ∈ ids) :
    Marked id (cText (shortenId (displayIdWidth w timerName ids) id)) ↔
      KeepsMark (w.chars - 76) (w.chars - 62) id := by
  obtain ⟨hmin, hmax, hids, -⟩ := displayIdWidth_spec w timerName ids
  have hself := hids id hid
  have hw := w.minWidth_le
  simp only [shortenId]
  rw [marked_shorten_iff (by omega) (by omega)]
  rcases Nat.lt_or_ge id.length (displayIdWidth w timerName ids) with hfits | hcut
  · rw [keepsMark_of_le (by omega) (by omega), keepsMark_of_le (by omega) (by omega)]
  · -- an id as long as that has made the column as wide as it can be
    have hcut : displayIdWidth w timerName ids - 1 = w.chars - 76 := by omega
    have hlimit : displayIdWidth w timerName ids + 13 = w.chars - 62 := by omega
    rw [hcut, hlimit]

/-! ### The ids -/

/-- Each user timer has a line if and only if no two have the same exclusive time. -/
theorem listed_iff (s : Timer) :
    (∀ id ∈ userIds s, id ∈ s.sortHL.map Prod.snd) ↔
      (userIds s).Pairwise fun i j => exclusive s i ≠ exclusive s j := by
  rw [← sortHL_complete_iff]
  constructor
  · intro hlisted
    have hle : (s.sortHL.map Prod.snd).length ≤ (userIds s).length := by
      rw [List.length_map, Timer.sortHL, map_sortEntry]
      refine le_trans ComparedMap.length_assignAll_le ?_
      rw [List.length_nil, Nat.zero_add, List.length_map]
    exact ((List.subperm_of_subset (nodup_userIds s) hlisted).perm_of_length_le hle).symm
  · exact fun hperm id hid => hperm.mem_iff.mpr hid

theorem marked_ids_iff (w : StdoutWidth) (timerName : List UInt8) (s : Timer) :
    (∀ id ∈ userIds s, ∃ text, (id, text) ∈ (printedNames w timerName s).ids ∧ Marked id text) ↔
      (∀ id ∈ userIds s, KeepsMark (w.chars - 76) (w.chars - 62) id) ∧
        (userIds s).Pairwise fun i j => exclusive s i ≠ exclusive s j := by
  have hprinted : ∀ id text, (id, text) ∈ (printedNames w timerName s).ids ↔
      id ∈ s.sortHL.map Prod.snd ∧
        text = cText (shortenId (displayIdWidth w timerName (userIds s)) id) := by
    intro id text
    simp only [printedNames, List.mem_map, Prod.mk.injEq]
    constructor
    · rintro ⟨e, he, rfl, rfl⟩
      exact ⟨⟨e, he, rfl⟩, rfl⟩
    · rintro ⟨⟨e, he, rfl⟩, rfl⟩
      exact ⟨e, he, rfl, rfl⟩
  rw [← listed_iff, ← forall₂_and]
  refine forall₂_congr fun id hid => ?_
  rw [← marked_shortenId_iff w timerName hid]
  constructor
  · rintro ⟨text, htext, hmarked⟩
    obtain ⟨hlisted, rfl⟩ := (hprinted id text).mp htext
    exact ⟨hmarked, hlisted⟩
  · rintro ⟨hmarked, hlisted⟩
    exact ⟨_, (hprinted id _).mpr ⟨hlisted, rfl⟩, hmarked⟩

/-- Names are marked whenever they are shortened if and only if no two user timers have the same
exclusive time, and the description and each id, up to a null character, are shorter than the
place of the cut or longer than the limit, or end in three dots of their own. -/
theorem namesMarked_iff (w : StdoutWidth) (timerName : List UInt8) (s : Timer) :
    NamesMarked w timerName s ↔
      KeepsMark (w.chars - 63) (w.chars - 62) timerName ∧
      (∀ id ∈ userIds s, KeepsMark (w.chars - 76) (w.chars - 62) id) ∧
        (userIds s).Pairwise fun i j => exclusive s i ≠ exclusive s j := by
  rw [← marked_description_iff w timerName s, ← marked_ids_iff w timerName s]
  constructor
  · exact fun h => ⟨h.description, h.ids⟩
  · rintro ⟨hdescription, hids⟩
    refine ⟨?_, hdescription, hids⟩
    obtain ⟨-, hmax, -, -⟩ := displayIdWidth_spec w timerName (userIds s)
    have hw := w.minWidth_le
    omega

/-- The timers of a program that has begun no timer of its own. -/
def idle : Timer where
  initialized := true
  finalized := false
  timerFinalize := -1
  timerName := ""
  numBegins := 1
  callgraph := [gtimer]
  timerMap := TreeMap.empty.insert gtimer (.first 0)

/-- In an output of 120 characters a description of 58 loses its last one. -/
theorem description58_unmarked : ¬NamesMarked .initial (List.replicate 58 65) idle := by
  intro h
  have hmark := (marked_description_iff .initial (List.replicate 58 65) idle).mp h.description
  exact absurd hmark (by decide)

end Grvy.Timing
