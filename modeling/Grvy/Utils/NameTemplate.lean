import Grvy.Lib.PathText
import Mathlib.Algebra.Group.Nat.Defs
import Mathlib.Algebra.Group.Int.Defs

/-!
Templates for the names of new directories.

A template ends in six X's, for which `mkdtemp` puts something unique. Whether it does
is looked up by `verify_string_ends_with_6_Xs`, which goes through the six characters
in front of the end, but does not ask whether there are six: of a shorter template it
reads the memory in front of it. The end is where an `int` says it is, so in a template
of 2 GiB or more it is somewhere else.
-/

namespace Grvy.Utils

open Grvy.Lib

/-! ### The check -/

/-- A `char *` to a string, with the memory in front of the string, the nearest character
first. -/
structure CharPointer where
  text : CText
  before : ℕ → Char

namespace CharPointer

/-- `p[i]`. -/
def read (p : CharPointer) : ℤ → Char
  | .ofNat i => p.text.getD i (Char.ofNat 0)
  | .negSucc i => p.before i

/-- `strlen`, in an `int`. -/
def lengthTemplate (p : CharPointer) : Int32 := Int32.ofNat p.text.length

end CharPointer

/-- What a check returns, and the indices at which it has read the template. -/
structure TemplateCheck where
  status : ℤ
  reads : List ℤ
  deriving DecidableEq

def NUM_REQUIRED_TRAILING_X : ℕ := 6

/-- The loop from the index `lengthTemplate - k` on. Where an `int` cannot hold that index it
is undefined in C; here it is a place far in front of the template. -/
def checkTrailing (p : CharPointer) (lengthTemplate : ℤ) : ℕ → TemplateCheck
  | 0 => { status := 0, reads := [] }
  | k + 1 =>
      let i := lengthTemplate - (k + 1)
      if p.read i ≠ 'X' then { status := 1, reads := [i] }
      else
        let rest := checkTrailing p lengthTemplate k
        { rest with reads := i :: rest.reads }

/-- `none` is the null pointer. -/
def verifyStringEndsWith6Xs : Option CharPointer → TemplateCheck
  | none => { status := 1, reads := [] }
  | some p => checkTrailing p p.lengthTemplate.toInt NUM_REQUIRED_TRAILING_X

/-! ### Making a directory -/

/-- What `mkdtemp` puts in the place of the six X's. -/
abbrev Unique := { c : CText // c.length = 6 ∧ ∀ x ∈ c, x.isAlphanum = true }

/-- The name made from a template. -/
def uniqueName (nameTemplate : CText) (unique : Unique) : CText :=
  nameTemplate.rdrop 6 ++ unique.val

/-- At least six characters, the last six of them X's. -/
def EndsWith6Xs (nameTemplate : CText) : Prop := List.replicate 6 'X' <:+ nameTemplate

instance (nameTemplate : CText) : Decidable (EndsWith6Xs nameTemplate) :=
  inferInstanceAs (Decidable (_ <:+ _))

/-- `mkdtemp`, which looks at the six X's itself. -/
def mkdtemp {C : Type} (nameTemplate : CText) (unique : Unique) (v : FileView C) :
    Option (FileView C) :=
  if EndsWith6Xs nameTemplate then v.mkdir (uniqueName nameTemplate unique) else none

def createUniqueDir {C : Type} (nameTemplate : Option CharPointer) (unique : Unique)
    (v : FileView C) : ℤ × FileView C :=
  let status := (verifyStringEndsWith6Xs nameTemplate).status
  if status ≠ 0 then (status, v)
  else
    match nameTemplate.bind fun p => mkdtemp p.text unique v with
    | none => (-1, v)
    | some v' => (0, v')

/-! ### What the check reads -/

variable {p : CharPointer} {lengthTemplate : ℤ} {k : ℕ}

/-- One round reads one character, and the next is looked at only after an X. -/
theorem mem_reads_succ {i : ℤ} :
    i ∈ (checkTrailing p lengthTemplate (k + 1)).reads ↔
      i = lengthTemplate - (k + 1) ∨
        p.read (lengthTemplate - (k + 1)) = 'X' ∧
          i ∈ (checkTrailing p lengthTemplate k).reads := by
  rw [checkTrailing]
  split
  · next hne => simp [hne]
  · next heq => simp [not_not.mp heq]

theorem mem_reads_bounds {i : ℤ} (hi : i ∈ (checkTrailing p lengthTemplate k).reads) :
    lengthTemplate - k ≤ i ∧ i < lengthTemplate := by
  induction k with
  | zero => cases hi
  | succ k ih =>
      rcases mem_reads_succ.mp hi with rfl | ⟨-, hi⟩
      · omega
      · have hrest := ih hi
        omega

/-- The upper half of the numbers below `2 ^ 32` turns negative in an `int`. -/
theorem CharPointer.toInt_lengthTemplate (p : CharPointer) :
    p.lengthTemplate.toInt =
      if p.text.length % 2 ^ 32 < 2 ^ 31 then ((p.text.length % 2 ^ 32 : ℕ) : ℤ)
      else ((p.text.length % 2 ^ 32 : ℕ) : ℤ) - 2 ^ 32 := by
  rw [lengthTemplate, Int32.toInt_ofNat', Int32.size, Int.bmod_def]
  split <;> split <;> omega

theorem CharPointer.lengthTemplate_le (p : CharPointer) :
    p.lengthTemplate.toInt ≤ p.text.length := by
  have hmod := Nat.mod_le p.text.length (2 ^ 32)
  rw [toInt_lengthTemplate]
  split <;> omega

theorem CharPointer.six_le_lengthTemplate_iff (p : CharPointer) :
    6 ≤ p.lengthTemplate.toInt ↔
      6 ≤ p.text.length % 2 ^ 32 ∧ p.text.length % 2 ^ 32 < 2 ^ 31 := by
  rw [toInt_lengthTemplate]
  split <;> omega

/-- Every read is in front of the end, and it is in the template if and only if the `int`
leaves room for six characters. -/
theorem reads_inside_iff (p : CharPointer) :
    (∀ i ∈ (verifyStringEndsWith6Xs (some p)).reads, 0 ≤ i ∧ i ≤ (p.text.length : ℤ) - 1) ↔
      6 ≤ p.lengthTemplate.toInt := by
  constructor
  · intro h
    -- the first character is read in any case
    have hfirst : 0 ≤ p.lengthTemplate.toInt - ((5 : ℕ) + 1) :=
      (h _ (mem_reads_succ.mpr (.inl rfl))).1
    omega
  · intro h i hi
    have hle := p.lengthTemplate_le
    obtain ⟨hlow, hhigh⟩ := mem_reads_bounds hi
    rw [NUM_REQUIRED_TRAILING_X] at hlow
    push_cast at hlow
    omega

/-! ### What the check accepts -/

theorem replicate_succ_suffix_iff {α : Type} {a : α} {l : List α} (h : k + 1 ≤ l.length) :
    List.replicate (k + 1) a <:+ l ↔
      l[l.length - (k + 1)]? = some a ∧ List.replicate k a <:+ l := by
  have hlt : l.length - (k + 1) < l.length := by omega
  have hnext : l.length - (k + 1) + 1 = l.length - k := by omega
  rw [List.suffix_iff_eq_drop, List.suffix_iff_eq_drop, List.length_replicate,
    List.length_replicate, List.drop_eq_getElem_cons hlt, hnext, List.replicate_succ,
    List.cons.injEq, List.getElem?_eq_getElem hlt, Option.some.injEq]
  exact and_congr_left fun _ => eq_comm

theorem CharPointer.read_eq_iff {i : ℕ} (hi : i < p.text.length) (c : Char) :
    p.read i = c ↔ p.text[i]? = some c := by
  show p.text.getD i _ = c ↔ _
  rw [List.getD_eq_getElem?_getD, List.getElem?_eq_getElem hi, Option.getD_some, Option.some.injEq]

theorem status_checkTrailing_succ :
    (checkTrailing p lengthTemplate (k + 1)).status = 0 ↔
      p.read (lengthTemplate - (k + 1)) = 'X' ∧
        (checkTrailing p lengthTemplate k).status = 0 := by
  rw [checkTrailing]
  split
  · next hne => simp [hne]
  · next heq => simp [not_not.mp heq]

/-- With room for them, the characters that are read are those in front of the end. -/
theorem status_checkTrailing {r : ℕ} (hk : k ≤ r) (hr : r ≤ p.text.length) :
    (checkTrailing p r k).status = 0 ↔ List.replicate k 'X' <:+ p.text.take r := by
  have hlength : (p.text.take r).length = r := List.length_take_of_le hr
  induction k with
  | zero => exact iff_of_true rfl List.nil_suffix
  | succ k ih =>
      have hlt : r - (k + 1) < r := by omega
      -- the index is not negative, so it is one of the template
      have hindex : (r : ℤ) - (k + 1) = ((r - (k + 1) : ℕ) : ℤ) := by omega
      have hread : p.read ((r : ℤ) - (k + 1)) = 'X' ↔
          (p.text.take r)[r - (k + 1)]? = some 'X' := by
        rw [hindex, List.getElem?_take_of_lt hlt]
        exact p.read_eq_iff (hlt.trans_le hr) 'X'
      have hrest := ih (Nat.le_of_succ_le hk)
      rw [replicate_succ_suffix_iff (hk.trans_eq hlength.symm), hlength]
      exact status_checkTrailing_succ.trans (and_congr hread hrest)

/-- What the check is for: it accepts the templates that end in six X's and no others, and
reads nothing but the template. -/
structure CharPointer.ChecksTemplate (p : CharPointer) : Prop where
  accepts : (verifyStringEndsWith6Xs (some p)).status = 0 ↔ EndsWith6Xs p.text
  inside : ∀ i ∈ (verifyStringEndsWith6Xs (some p)).reads,
    0 ≤ i ∧ i ≤ (p.text.length : ℤ) - 1

/-- The check does what it is for if and only if the length, or what an `int` can hold of it,
is six at least, and where the `int` stops short of the end, the six characters there are X's
exactly if the last six are. -/
theorem checksTemplate_iff (p : CharPointer) :
    p.ChecksTemplate ↔
      6 ≤ p.text.length % 2 ^ 32 ∧ p.text.length % 2 ^ 32 < 2 ^ 31 ∧
        (EndsWith6Xs (p.text.take (p.text.length % 2 ^ 32)) ↔ EndsWith6Xs p.text) := by
  have hstatus (hlow : 6 ≤ p.text.length % 2 ^ 32) (hhigh : p.text.length % 2 ^ 32 < 2 ^ 31) :
      (verifyStringEndsWith6Xs (some p)).status = 0 ↔
        EndsWith6Xs (p.text.take (p.text.length % 2 ^ 32)) := by
    rw [verifyStringEndsWith6Xs, p.toInt_lengthTemplate, if_pos hhigh]
    exact status_checkTrailing hlow (Nat.mod_le _ _)
  constructor
  · intro h
    obtain ⟨hlow, hhigh⟩ := p.six_le_lengthTemplate_iff.mp ((reads_inside_iff p).mp h.inside)
    exact ⟨hlow, hhigh, (hstatus hlow hhigh).symm.trans h.accepts⟩
  · rintro ⟨hlow, hhigh, hsame⟩
    refine ⟨(hstatus hlow hhigh).trans hsame, ?_⟩
    exact (reads_inside_iff p).mpr (p.six_le_lengthTemplate_iff.mpr ⟨hlow, hhigh⟩)

/-- Below 2 GiB it does so for the templates of six characters or more. -/
theorem checksTemplate_iff_of_lt (h : p.text.length < 2 ^ 31) :
    p.ChecksTemplate ↔ 6 ≤ p.text.length := by
  have hmod : p.text.length % 2 ^ 32 = p.text.length := Nat.mod_eq_of_lt (by omega)
  rw [checksTemplate_iff, hmod, List.take_length]
  exact ⟨fun hcheck => hcheck.1, fun hlow => ⟨hlow, h, Iff.rfl⟩⟩

/-- The empty string behind six X's. -/
def emptyBehindXs : CharPointer where
  text := []
  before := fun _ => 'X'

/-- It is accepted, and nothing of it is read. -/
theorem emptyBehindXs_accepted :
    verifyStringEndsWith6Xs (some emptyBehindXs) =
        { status := 0, reads := [-6, -5, -4, -3, -2, -1] } ∧
      ¬ EndsWith6Xs emptyBehindXs.text ∧ ¬ emptyBehindXs.ChecksTemplate := by
  refine ⟨by decide +kernel, by decide, fun h => ?_⟩
  have hlow := (h.inside (-6) (by decide +kernel)).1
  exact absurd hlow (by decide)

/-! ### The callers -/

/-- What a call does: it makes a directory, and this from no template that does not end in six
X's, whatever the check lets through; or it makes nothing. -/
theorem createUniqueDir_cases {C : Type} (p : CharPointer) (unique : Unique) (v : FileView C) :
    ((createUniqueDir (some p) unique v).1 ≠ 0 ∧ (createUniqueDir (some p) unique v).2 = v) ∨
      ((createUniqueDir (some p) unique v).1 = 0 ∧ EndsWith6Xs p.text ∧
        ∃ loc, v.tree.locate v.cwd (uniqueName p.text unique) = some loc ∧
          v.tree.create loc .dir = some (createUniqueDir (some p) unique v).2.tree ∧
          (createUniqueDir (some p) unique v).2.cwd = v.cwd) := by
  rw [createUniqueDir]
  split
  · next hstatus => exact .inl ⟨hstatus, rfl⟩
  · -- the check has let the template through, and now `mkdtemp` looks at it
    rw [Option.bind_some, mkdtemp]
    by_cases hend : EndsWith6Xs p.text
    · rw [if_pos hend]
      cases hmkdir : v.mkdir (uniqueName p.text unique) with
      | none => exact .inl ⟨(by decide : (-1 : ℤ) ≠ 0), rfl⟩
      | some v' =>
          obtain ⟨loc, hloc, hcreate⟩ := Option.bind_eq_some_iff.mp hmkdir
          obtain ⟨htree, hcwd⟩ := FileView.create_eq_some.mp hcreate
          exact .inr ⟨rfl, hend, loc, hloc, htree, hcwd⟩
    · rw [if_neg hend]
      exact .inl ⟨(by decide : (-1 : ℤ) ≠ 0), rfl⟩

end Grvy.Utils
