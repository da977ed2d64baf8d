import Mathlib.Algebra.Order.Ring.Rat
import Grvy.Lib.PathName
import Grvy.Lib.TreeMapCensus

/-!
The input class of `grvy_input.cpp`: `Open`, `Load`, `Close`, `Register_Var`,
`Get_Var` and `Read_Var` for the scalar types.

`GetPot` is known by what it answers: for each type and each name the value the
file defines, if it defines one that can be converted. The template `Read_Var<T>`
and the overload for strings are one function of the type. What is printed is
left out, and so are infinities and NaN.
-/

namespace Grvy.Lookup

open Std (TreeMap)
open Grvy.Lib

/-! ### Types of input variables -/

/-- The types with a default that means "no default". -/
inductive Kind
  | int
  | float
  | double
  | string
  deriving DecidableEq, Repr

/-- The values of a type. -/
abbrev Kind.type : Kind → Type
  | .int => ℤ
  | .float => ℚ
  | .double => ℚ
  | .string => String

instance : (k : Kind) → DecidableEq k.type
  | .int => inferInstanceAs (DecidableEq ℤ)
  | .float => inferInstanceAs (DecidableEq ℚ)
  | .double => inferInstanceAs (DecidableEq ℚ)
  | .string => inferInstanceAs (DecidableEq String)

/-- `Get_Default`: `Int_Def`, `Float_Def`, `Double_Def` and `String_Def`. -/
def Kind.getDefault : (k : Kind) → k.type
  | .int => (-9999999 : ℤ)
  | .float => (-9999999 : ℚ)
  | .double => (-99999990 : ℚ)
  | .string => "unknown"

/-- What `GetPot` gets to see of a default: `c_str()` ends a string at its first
null character, and other values are passed on as they are. -/
def Kind.cStr : (k : Kind) → k.type → k.type
  | .int, v => v
  | .float, v => v
  | .double, v => v
  | .string, v => cString v

@[simp] theorem Kind.cStr_getDefault (k : Kind) : k.cStr k.getDefault = k.getDefault := by
  cases k with
  | int => rfl
  | float => rfl
  | double => rfl
  | string => decide +kernel

/-! ### Files -/

/-- A file as `GetPot` has parsed it. -/
structure GetPot where
  value : (k : Kind) → String → Option k.type
  /-- A string is returned as a `char *`. -/
  cStr_value (k : Kind) (var : String) (v : k.type) : value k var = some v → k.cStr v = v
  bool : String → Option Bool
  /-- The number of tokens, the name of the file included. -/
  size : ℕ

/-- `operator()`, assumed to return the value of the file where there is one. -/
def GetPot.get (ifile : GetPot) (k : Kind) (var : String) (varDef : k.type) : k.type :=
  (ifile.value k var).getD (k.cStr varDef)

/-- What a read without a default returns if `d` is registered. -/
def GetPot.valueOr (ifile : GetPot) (k : Kind) (var : String) (d : k.type) : k.type :=
  if ifile.get k var k.getDefault = k.getDefault then d else ifile.get k var k.getDefault

def GetPot.getBool (ifile : GetPot) (var : String) (varDef : Bool) : Bool :=
  (ifile.bool var).getD varDef

theorem GetPot.cStr_valueOr (ifile : GetPot) {k : Kind} {var : String} {d : k.type}
    (hd : k.cStr d = d) : k.cStr (ifile.valueOr k var d) = ifile.valueOr k var d := by
  rw [valueOr, get, Kind.cStr_getDefault]
  cases hvalue : ifile.value k var with
  | none => simpa using hd
  | some v =>
      simp only [Option.getD_some]
      split
      · exact hd
      · exact ifile.cStr_value k var v hvalue

/-- A value that is not the default is the registered default, or the file's. -/
theorem GetPot.valueOr_eq_iff (ifile : GetPot) (k : Kind) (var : String) (d : k.type) {v : k.type}
    (hv : v ≠ k.getDefault) :
    ifile.valueOr k var d = v ↔
      ifile.value k var = some v ∨
        (d = v ∧ (ifile.value k var = none ∨ ifile.value k var = some k.getDefault)) := by
  rw [valueOr, get, Kind.cStr_getDefault]
  cases ifile.value k var with
  | none => simp
  | some x =>
      by_cases hx : x = k.getDefault
      · simp [hx, Ne.symm hv]
      · simp [hx]

/-- A file that can be opened. -/
structure DiskFile where
  /-- It contains a carriage return. -/
  dosNewline : Bool
  contents : GetPot

/-! ### The input object -/

/-- `GRVY_Input_ClassImp`. -/
structure Input where
  ifile : Option GetPot
  initialized : Bool
  defaults : (k : Kind) → TreeMap String k.type
  defaultBools : TreeMap String Bool
  isSome_of_initialized : initialized = true → ifile.isSome = true

namespace Input

/-- The constructor. -/
def new : Input where
  ifile := none
  initialized := false
  defaults := fun _ => ∅
  defaultBools := ∅
  isSome_of_initialized := by simp

/-- The file that is open. -/
def opened (s : Input) : Option GetPot := if s.initialized then s.ifile else none

/-- The end of `Open` and `Load`: only what is not empty counts as opened. -/
def attach (contents : GetPot) (s : Input) : ℕ × Input :=
  if contents.size ≤ 1 then
    (0, { s with ifile := some contents, isSome_of_initialized := fun _ => rfl })
  else
    (1, { s with
      ifile := some contents
      initialized := true
      isSome_of_initialized := fun _ => rfl })

/-- `Open` of a file, or of a name under which there is none. -/
def openFile (file : Option DiskFile) (s : Input) : ℕ × Input :=
  if s.initialized then (0, s)
  else
    match file with
    | none => (0, s)
    | some f => if f.dosNewline then (0, s) else s.attach f.contents

def load (buffer : GetPot) (s : Input) : ℕ × Input :=
  if s.initialized then (0, s) else s.attach buffer

def close (s : Input) : ℕ × Input :=
  if s.initialized then
    (1, { s with ifile := none, initialized := false, isSome_of_initialized := by simp })
  else (1, s)

def registerVar (k : Kind) (varname : String) (var : k.type) (s : Input) : Input :=
  { s with defaults := Function.update s.defaults k ((s.defaults k).insert varname var) }

def registerBool (varname : String) (var : Bool) (s : Input) : Input :=
  { s with defaultBools := s.defaultBools.insert varname var }

def getVar (k : Kind) (varname : String) (s : Input) : Option k.type := (s.defaults k)[varname]?

/-- Register a default the user has supplied. -/
def registerDefault (k : Kind) (var : String) (varDef : k.type) (s : Input) : Input :=
  if varDef ≠ k.getDefault then s.registerVar k var varDef else s

/-- `Read_Var` with a default, or with `Get_Default` in its place. It returns a
code, the value written to `*value`, if one is, and the object. -/
def readVar (k : Kind) (var : String) (varDef : k.type) (s : Input) :
    ℕ × Option k.type × Input :=
  if h : s.initialized = true then
    let ifile := s.ifile.get (s.isSome_of_initialized h)
    let s := s.registerDefault k var varDef
    let value := ifile.get k var varDef
    if value = varDef then
      match s.getVar k var with
      | none => (0, some value, s)
      | some v => (1, some v, s)
    else (1, some value, s)
  else (0, none, s)

/-- `Read_Var` of a bool, which always has a default. -/
def readBool (var : String) (varDef : Bool) (s : Input) : ℕ × Option Bool × Input :=
  if h : s.initialized = true then
    let ifile := s.ifile.get (s.isSome_of_initialized h)
    (1, some (ifile.getBool var varDef), s.registerBool var varDef)
  else (0, none, s)

/-! ### What a read does -/

variable {s : Input} {ifile : GetPot} {k : Kind} {var : String} {varDef : k.type}

theorem readVar_closed (h : s.opened = none) : s.readVar k var varDef = (0, none, s) := by
  rw [readVar, dif_neg]
  intro hinit
  rw [opened, if_pos hinit] at h
  have hsome := s.isSome_of_initialized hinit
  rw [h] at hsome
  cases hsome

theorem initialized_of_opened (h : s.opened = some ifile) : s.initialized = true := by
  by_contra hnot
  rw [opened, if_neg hnot] at h
  cases h

theorem readVar_opened (h : s.opened = some ifile) :
    s.readVar k var varDef =
      if ifile.get k var varDef = varDef then
        (((s.registerDefault k var varDef).getVar k var).elim 0 fun _ => 1,
          ((s.registerDefault k var varDef).getVar k var).or (some varDef),
          s.registerDefault k var varDef)
      else (1, some (ifile.get k var varDef), s.registerDefault k var varDef) := by
  have hinit := initialized_of_opened h
  rw [opened, if_pos hinit] at h
  have hget : s.ifile.get (s.isSome_of_initialized hinit) = ifile := by simp [h]
  rw [readVar, dif_pos hinit, hget]
  by_cases hvalue : ifile.get k var varDef = varDef
  · simp only [if_pos hvalue]
    cases hreg : (s.registerDefault k var varDef).getVar k var with
    | none => simp [hvalue]
    | some v => rfl
  · simp only [if_neg hvalue]

@[simp] theorem registerDefault_getDefault : s.registerDefault k var k.getDefault = s :=
  if_neg (fun h => h rfl)

theorem registerDefault_of_ne (h : varDef ≠ k.getDefault) :
    s.registerDefault k var varDef = s.registerVar k var varDef :=
  if_pos h

/-- With a registered default a read returns 1 and registers nothing. -/
theorem readVar_registered {d : k.type} (h : s.opened = some ifile)
    (hreg : s.getVar k var = some d) :
    s.readVar k var k.getDefault = (1, some (ifile.valueOr k var d), s) := by
  rw [readVar_opened h, registerDefault_getDefault, hreg, GetPot.valueOr]
  split <;> rfl

theorem readBool_opened {b : Bool} (h : s.opened = some ifile) :
    s.readBool var b = (1, some (ifile.getBool var b), s.registerBool var b) := by
  have hinit := initialized_of_opened h
  rw [opened, if_pos hinit] at h
  have hget : s.ifile.get (s.isSome_of_initialized hinit) = ifile := by simp [h]
  rw [readBool, dif_pos hinit, hget]

@[simp] theorem opened_registerVar (k : Kind) (var : String) (v : k.type) (s : Input) :
    (s.registerVar k var v).opened = s.opened := rfl

@[simp] theorem opened_registerDefault : (s.registerDefault k var varDef).opened = s.opened := by
  rw [registerDefault]
  split <;> rfl

@[simp]
theorem getVar_registerVar (v : k.type) : (s.registerVar k var v).getVar k var = some v := by
  change (Function.update s.defaults k ((s.defaults k).insert var v) k)[var]? = some v
  rw [Function.update_self, TreeMap.getElem?_insert_self]

@[simp] theorem getVar_registerVar_of_ne {var' : String} (h : var' ≠ var) (v : k.type) :
    (s.registerVar k var v).getVar k var' = s.getVar k var' := by
  change (Function.update s.defaults k ((s.defaults k).insert var v) k)[var']? = _
  rw [Function.update_self, getElem?_insert_of_ne h]
  rfl

@[simp]
theorem getVar_registerVar_of_ne_kind {k' : Kind} (h : k' ≠ k) (v : k.type) (var' : String) :
    (s.registerVar k var v).getVar k' var' = s.getVar k' var' := by
  change (Function.update s.defaults k ((s.defaults k).insert var v) k')[var']? = _
  rw [Function.update_of_ne h]
  rfl

end Input

end Grvy.Lookup
