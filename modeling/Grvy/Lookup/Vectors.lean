import Grvy.Lib.BinaryFloat
import Grvy.Lookup.Input

/-!
Reading vectors: `Read_Var_Vec` and `Read_Var_iVec`.

`GetPot` splits the text of a variable at blanks and converts one piece at a
time. It answers with the default where there is no such piece, and that answer
is how the input class notices: a value that equals the default counts as
missing, whether it is in the file or not.
-/

namespace Grvy.Lookup

open Grvy.Lib

/-- An `int`, with its value as an `unsigned` in `toNat`. -/
abbrev CInt := BitVec 32

/-! ### Elements of a variable -/

/-- The characters at which `GetPot` splits a value. -/
def isFieldSeparator (c : Char) : Bool := c = ' ' || c = '\t' || c = '\n'

/-- The pieces `strtok` finds in a text. -/
def fields (text : String) : List String :=
  ((text.toList.splitOnP isFieldSeparator).filter fun piece => !piece.isEmpty).map String.ofList

/-- `(int)` of a `double`. For one that does not fit, the processors give the least `int`. -/
def truncateToInt (x : ℚ) : ℤ :=
  let n := if 0 ≤ x then ⌊x⌋ else ⌈x⌉
  if -2 ^ 31 ≤ n ∧ n < 2 ^ 31 then n else -2 ^ 31

example : truncateToInt (-7 / 2) = -3 ∧ truncateToInt 3000000000 = -2147483648 := by
  decide +kernel

/-- `__convert_to_type`, where `scan` is the `double` that `sscanf` makes of a text with
`"%lf"`. A `float` is read as a `double` and rounded when it is assigned. -/
def convertToType (scan : String → Option ℚ) : (k : Kind) → String → Option k.type
  | .int, text => (scan text).map truncateToInt
  | .float, text => (scan text).map BinaryFormat.binary32.round
  | .double, text => scan text
  | .string, text => some text

/-- The elements of a variable, each with its value if it can be converted. -/
def GetPot.elements (ifile : GetPot) (scan : String → Option ℚ) (k : Kind) (var : String) :
    List (Option k.type) :=
  match ifile.value .string var with
  | none => []
  | some text => (fields text).map (convertToType scan k)

/-- `operator()` with an index. -/
def GetPot.getElement (ifile : GetPot) (scan : String → Option ℚ) (k : Kind) (var : String)
    (varDef : k.type) (idx : ℕ) : k.type :=
  ((ifile.elements scan k var)[idx]?.join).getD (k.cStr varDef)

namespace Input

/-! ### The reads -/

/-- The loop of `Read_Var_Vec`, with `n` elements to go from the one with index
`i` on: the code it returns and the values it has written. -/
def readElements {α : Type} [DecidableEq α] (get : ℕ → α) (varDef : α) : ℕ → ℕ → ℕ × List α
  | 0, _ => (1, [])
  | n + 1, i =>
      let value := get i
      if value = varDef then (0, [value])
      else
        let (code, values) := readElements get varDef n (i + 1)
        (code, value :: values)

/-- `Read_Var_Vec`: the code and the values written to `value[0]`, `value[1]`, ... -/
def readVarVec (scan : String → Option ℚ) (k : Kind) (var : String) (nelems : CInt)
    (varDef : k.type) (s : Input) : ℕ × List k.type :=
  if h : s.initialized = true then
    let ifile := s.ifile.get (s.isSome_of_initialized h)
    readElements (ifile.getElement scan k var varDef) varDef nelems.toInt.toNat 0
  else (0, [])

/-- `Read_Var_iVec`: the code and the value written to `*value`. The index is
passed on as an `unsigned`. -/
def readVarIVec (scan : String → Option ℚ) (k : Kind) (var : String) (elem : CInt)
    (varDef : k.type) (s : Input) : ℕ × Option k.type :=
  if h : s.initialized = true then
    let ifile := s.ifile.get (s.isSome_of_initialized h)
    let value := ifile.getElement scan k var varDef elem.toNat
    if value = varDef then (0, some value) else (1, some value)
  else (0, none)

/-- `Read_Var_iVec` of a string, which takes no default. -/
def readVarIVecText (scan : String → Option ℚ) (var : String) (elem : CInt) (s : Input) :
    ℕ × Option String :=
  s.readVarIVec scan .string var elem Kind.string.getDefault

variable {scan : String → Option ℚ} {s : Input} {ifile : GetPot} {k : Kind} {var : String}
  {varDef : k.type}

theorem readVarVec_opened (h : s.opened = some ifile) (nelems : CInt) :
    s.readVarVec scan k var nelems varDef =
      readElements (ifile.getElement scan k var varDef) varDef nelems.toInt.toNat 0 := by
  have hinit := initialized_of_opened h
  rw [opened, if_pos hinit] at h
  have hget : s.ifile.get (s.isSome_of_initialized hinit) = ifile := by simp [h]
  rw [readVarVec, dif_pos hinit, hget]

theorem readVarIVec_opened (h : s.opened = some ifile) (elem : CInt) :
    s.readVarIVec scan k var elem varDef =
      if ifile.getElement scan k var varDef elem.toNat = varDef then (0, some varDef)
      else (1, some (ifile.getElement scan k var varDef elem.toNat)) := by
  have hinit := initialized_of_opened h
  rw [opened, if_pos hinit] at h
  have hget : s.ifile.get (s.isSome_of_initialized hinit) = ifile := by simp [h]
  rw [readVarIVec, dif_pos hinit, hget]
  by_cases hvalue : ifile.getElement scan k var varDef elem.toNat = varDef
  · simp only [hvalue]
  · simp only [if_neg hvalue]

/-! ### What is read -/

variable {xs : List k.type}

theorem getElement_eq (hxs : ifile.elements scan k var = xs.map some)
    (hdef : k.cStr varDef = varDef) (idx : ℕ) :
    ifile.getElement scan k var varDef idx = xs[idx]?.getD varDef := by
  rw [GetPot.getElement, hxs, List.getElem?_map, hdef]
  cases xs[idx]? <;> rfl

/-- A loop that meets no default writes the values it gets and returns 1, and any
other returns 0. -/
theorem readElements_spec {α : Type} [DecidableEq α] (get : ℕ → α) (varDef : α) (n i : ℕ) :
    ((∀ j < n, get (i + j) ≠ varDef) ∧
        readElements get varDef n i = (1, (List.range n).map fun j => get (i + j))) ∨
      ((∃ j < n, get (i + j) = varDef) ∧ (readElements get varDef n i).1 = 0) := by
  induction n generalizing i with
  | zero =>
      left
      exact ⟨fun j hj => absurd hj (Nat.not_lt_zero j), rfl⟩
  | succ n ih =>
      have hshift : ∀ j, get (i + 1 + j) = get (i + (j + 1)) := fun j => by
        rw [Nat.add_assoc, Nat.add_comm 1 j]
      by_cases hfirst : get i = varDef
      · right
        refine ⟨⟨0, Nat.succ_pos n, hfirst⟩, ?_⟩
        simp [readElements, hfirst]
      · rcases ih (i + 1) with ⟨hall, hread⟩ | ⟨⟨j, hj, hmiss⟩, hread⟩
        · left
          refine ⟨fun j hj => ?_, ?_⟩
          · cases j with
            | zero => exact hfirst
            | succ j =>
                rw [← hshift]
                exact hall j (Nat.lt_of_succ_lt_succ hj)
          · simp only [readElements, if_neg hfirst, hread, hshift]
            rw [List.range_succ_eq_map, List.map_cons, List.map_map]
            rfl
        · right
          refine ⟨⟨j + 1, Nat.succ_lt_succ hj, ?_⟩, ?_⟩
          · rw [← hshift]
            exact hmiss
          · simp only [readElements, if_neg hfirst, hread]

/-! ### Which reads accept what is there -/

/-- `Read_Var_Vec` returns 1 exactly if the variable has as many elements as asked
for, and then it has read them. -/
structure AcceptsVec (scan : String → Option ℚ) (s : Input) (k : Kind) (var : String)
    (xs : List k.type) (varDef : k.type) (nelems : CInt) : Prop where
  code : (s.readVarVec scan k var nelems varDef).1 = 1 ↔ nelems.toInt ≤ xs.length
  values : nelems.toInt ≤ xs.length → ∀ i : ℕ, i < nelems.toInt →
    (s.readVarVec scan k var nelems varDef).2[i]? = xs[i]?

/-- `Read_Var_iVec` returns 1 exactly if the variable has the element asked for, and
then it has read it; `read` is what it returns. -/
structure AcceptsElement {α : Type} (read : ℕ × Option α) (xs : List α) (elem : CInt) : Prop where
  code : read.1 = 1 ↔ 0 ≤ elem.toInt ∧ elem.toInt < xs.length
  value : 0 ≤ elem.toInt → elem.toInt < xs.length → read.2 = xs[elem.toInt.toNat]?

/-- No element that is to be read equals the default. -/
def VecClear {α : Type} (xs : List α) (varDef : α) (nelems : CInt) : Prop :=
  nelems.toInt ≤ xs.length → ∀ i : ℕ, i < nelems.toInt → xs[i]? ≠ some varDef

/-- The element with the index does not equal the default. A negative index, which
as an `unsigned` is at least 2^31, has no element or the default there. -/
def ElementClear {α : Type} (xs : List α) (varDef : α) (elem : CInt) : Prop :=
  (0 ≤ elem.toInt → xs[elem.toNat]? ≠ some varDef) ∧
    (elem.toInt < 0 → ∀ x, xs[elem.toNat]? = some x → x = varDef)

theorem getD_eq_iff {α : Type} {xs : List α} {varDef : α} {i : ℕ} :
    xs[i]?.getD varDef = varDef ↔ xs.length ≤ i ∨ xs[i]? = some varDef := by
  cases hx : xs[i]? with
  | none =>
      have hlen := List.getElem?_eq_none_iff.mp hx
      simp [hlen]
  | some x =>
      have hlen := (List.getElem?_eq_some_iff.mp hx).1
      simp [hlen]

theorem acceptsVec_iff (h : s.opened = some ifile)
    (hxs : ifile.elements scan k var = xs.map some) (hdef : k.cStr varDef = varDef)
    (nelems : CInt) :
    AcceptsVec scan s k var xs varDef nelems ↔ VecClear xs varDef nelems := by
  have hread : s.readVarVec scan k var nelems varDef = _ := readVarVec_opened h nelems
  have hget := getElement_eq hxs hdef
  rcases readElements_spec (ifile.getElement scan k var varDef) varDef nelems.toInt.toNat 0 with
    ⟨hall, hspec⟩ | ⟨⟨j, hj, hmiss⟩, hspec⟩
  · -- the loop runs through, so the elements are there and differ from the default
    simp only [Nat.zero_add] at hall hspec
    rw [hspec] at hread
    have hle : nelems.toInt ≤ xs.length := by
      by_contra hlt
      refine hall xs.length (by omega) ?_
      rw [hget, getD_eq_iff]
      exact Or.inl (le_refl _)
    refine iff_of_true ⟨?_, fun _ i hi => ?_⟩ fun _ i hi hx => ?_
    · rw [hread]
      exact iff_of_true rfl hle
    · rw [hread, List.getElem?_map, List.getElem?_range (by omega), Option.map_some, hget,
        List.getElem?_eq_getElem (by omega), Option.getD_some]
    · refine hall i (by omega) ?_
      rw [hget, getD_eq_iff]
      exact Or.inr hx
  · -- the loop stops early: fine if an element is missing, wrong if one is the default
    rw [Nat.zero_add, hget, getD_eq_iff] at hmiss
    by_cases hle : nelems.toInt ≤ xs.length
    · refine iff_of_false (fun haccepts => ?_) fun hclear => ?_
      · have hcode := haccepts.code.mpr hle
        rw [hread, hspec] at hcode
        cases hcode
      · exact hclear hle j (by omega) (hmiss.resolve_left (by omega))
    · refine iff_of_true ⟨?_, fun hle' => absurd hle' hle⟩ fun hle' => absurd hle' hle
      rw [hread, hspec]
      exact iff_of_false Nat.zero_ne_one hle

/-- The value is the element at the index where there is one, and it is accepted unless it
equals the default. -/
theorem readVarIVec_spec (h : s.opened = some ifile)
    (hxs : ifile.elements scan k var = xs.map some) (hdef : k.cStr varDef = varDef)
    (elem : CInt) :
    ((s.readVarIVec scan k var elem varDef).1 = 1 ↔
        ∃ x, xs[elem.toNat]? = some x ∧ x ≠ varDef) ∧
      ∀ x, xs[elem.toNat]? = some x → (s.readVarIVec scan k var elem varDef).2 = some x := by
  rw [readVarIVec_opened h elem, getElement_eq hxs hdef]
  cases hx : xs[elem.toNat]? with
  | none => simp
  | some x =>
      rw [Option.getD_some]
      by_cases hsame : x = varDef
      · rw [if_pos hsame]
        simp [hsame]
      · rw [if_neg hsame]
        simp [hsame]

theorem acceptsElement_iff (h : s.opened = some ifile)
    (hxs : ifile.elements scan k var = xs.map some) (hdef : k.cStr varDef = varDef)
    (elem : CInt) :
    AcceptsElement (s.readVarIVec scan k var elem varDef) xs elem ↔
      ElementClear xs varDef elem := by
  obtain ⟨hcode, hvalue⟩ := readVarIVec_spec h hxs hdef elem
  by_cases hsign : 0 ≤ elem.toInt
  · have hindex : elem.toInt = elem.toNat := by
      have hcond := elem.toInt_eq_toNat_cond
      split at hcond <;> omega
    have hin : elem.toInt < xs.length ↔ ∃ x, xs[elem.toNat]? = some x := by
      rw [hindex, Nat.cast_lt, ← Option.isSome_iff_exists]
      simp
    constructor
    · intro haccepts
      refine ⟨fun _ hx => ?_, fun hneg => absurd hsign (by omega)⟩
      obtain ⟨x, hx', hne⟩ := hcode.mp (haccepts.code.mpr ⟨hsign, hin.mpr ⟨_, hx⟩⟩)
      exact hne (Option.some.inj (hx'.symm.trans hx))
    · intro hclear
      refine ⟨hcode.trans ⟨?_, ?_⟩, fun _ hlt => ?_⟩
      · rintro ⟨x, hx, -⟩
        exact ⟨hsign, hin.mpr ⟨x, hx⟩⟩
      · rintro ⟨-, hlt⟩
        obtain ⟨x, hx⟩ := hin.mp hlt
        exact ⟨x, hx, fun heq => hclear.1 hsign (heq ▸ hx)⟩
      · obtain ⟨x, hx⟩ := hin.mp hlt
        rw [hvalue x hx, hindex, Int.toNat_natCast, hx]
  · -- no element is to be found at a negative index
    constructor
    · intro haccepts
      refine ⟨fun hnonneg => absurd hnonneg hsign, fun _ x hx => ?_⟩
      by_contra hne
      exact hsign (haccepts.code.mp (hcode.mpr ⟨x, hx, hne⟩)).1
    · intro hclear
      refine ⟨hcode.trans (iff_of_false ?_ fun hin => hsign hin.1), fun hin => absurd hin hsign⟩
      rintro ⟨x, hx, hne⟩
      exact hne (hclear.2 (by omega) x hx)

/-- The elements of a variable as texts. -/
def texts (ifile : GetPot) (var : String) : List String :=
  ((ifile.value .string var).map fields).getD []

@[simp] theorem elements_string (ifile : GetPot) (scan : String → Option ℚ) (var : String) :
    ifile.elements scan .string var = (texts ifile var).map some := by
  rw [GetPot.elements, texts]
  cases ifile.value .string var with
  | none => rfl
  | some text => rfl

/-- **Vector reads.** Of a file in which `var` is a list of integers, vectors and
elements are read as they are if and only if nothing that is to be read equals the
default, and so are the elements of any variable as texts. -/
theorem vector_reads_iff (h : s.opened = some ifile) {xs : List ℤ}
    (hxs : ifile.elements scan .int var = xs.map some) (varDef : ℤ) (nelems elem : CInt)
    (textVar : String) :
    (AcceptsVec scan s .int var xs varDef nelems ↔ VecClear xs varDef nelems) ∧
      (AcceptsElement (s.readVarIVec scan .int var elem varDef) xs elem ↔
        ElementClear xs varDef elem) ∧
      (AcceptsElement (s.readVarIVecText scan textVar elem) (texts ifile textVar) elem ↔
        ElementClear (texts ifile textVar) "unknown" elem) :=
  ⟨acceptsVec_iff h hxs rfl nelems, acceptsElement_iff h hxs rfl elem,
    acceptsElement_iff h (elements_string ifile scan textVar) (Kind.cStr_getDefault .string) elem⟩

/-! ### A file with one vector -/

def appendDigit (n : ℕ) (c : Char) : Option ℕ :=
  if c.isDigit then some (10 * n + (c.toNat - '0'.toNat)) else none

/-- What `sscanf` finds in a natural number. -/
def scanDecimal (text : String) : Option ℚ :=
  (text.toList.foldlM appendDigit 0).map fun n => (n : ℚ)

/-- A file with the one line `A = '1 2 3'`. -/
def vectorFile : GetPot where
  value
    | .string, var => if var = "A" then some "1 2 3" else none
    | _, _ => none
  cStr_value k var v h := by
    cases k with
    | string =>
        obtain ⟨-, hv⟩ := Option.ite_none_right_eq_some.mp h
        rw [← Option.some.inj hv]
        decide +kernel
    | _ => rfl
  bool _ := none
  size := 2

def vectorInput : Input := (Input.new.load vectorFile).2

theorem vectorFile_elements : vectorFile.elements scanDecimal .int "A" = [1, 2, 3].map some := by
  decide +kernel

/-- Two of the three elements are read with a default that is not among them. -/
theorem vectorInput_accepts :
    AcceptsVec scanDecimal vectorInput .int "A" [1, 2, 3] (7 : ℤ) 2 ∧
      AcceptsElement (vectorInput.readVarIVecText scanDecimal "A" 2) (texts vectorFile "A") 2 := by
  have hopen : vectorInput.opened = some vectorFile := rfl
  obtain ⟨hvec, -, htext⟩ := vector_reads_iff hopen vectorFile_elements 7 2 2 "A"
  refine ⟨hvec.mpr fun _ i hi => ?_, htext.mpr ⟨fun _ => by decide +kernel, fun hneg => ?_⟩⟩
  · have hi' : (i : ℤ) < 2 := hi
    obtain rfl | rfl : i = 0 ∨ i = 1 := by omega
    · decide
    · decide
  · exact absurd hneg (by decide)

/-- The second element is the default. -/
theorem vectorInput_refuses :
    ¬AcceptsVec scanDecimal vectorInput .int "A" [1, 2, 3] (2 : ℤ) 3 := by
  intro h
  have hcode : (vectorInput.readVarVec scanDecimal .int "A" 3 (2 : ℤ)).1 = 1 :=
    h.code.mpr (by decide)
  exact absurd hcode (by decide +kernel)

end Input

end Grvy.Lookup
