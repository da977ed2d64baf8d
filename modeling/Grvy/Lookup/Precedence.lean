import Grvy.Lookup.Input

/-!
The precedence rule of input lookup.

A read should take the value of the file, or else the default of the call, or
else the registered one. The source infers from the value it gets whether the
file has one. It follows the rule if and only if the default that means "no
default" is not in play, except as the registered default, and a default of the
call comes with a variable that the file does not define.
-/

namespace Grvy.Lookup

open Std (TreeMap)

/-! ### Calls and answers -/

/-- A call of the interface. A read without a default has `none`. -/
inductive Op
  | openFile (file : Option DiskFile)
  | load (buffer : GetPot)
  | close
  | register (k : Kind) (varname : String) (var : k.type)
  | read (k : Kind) (var : String) (varDef : Option k.type)

/-- What a call returns: a code, and the value read if the code is 1. -/
inductive Answer
  | code (ret : ℕ)
  | value (k : Kind) (v : k.type)
  | notFound
  deriving DecidableEq

def readAnswer (k : Kind) (r : ℕ × Option k.type) : Answer :=
  if r.1 = 1 then r.2.elim .notFound (.value k) else .notFound

def Op.perform (s : Input) : Op → Answer × Input
  | .openFile file => (.code (s.openFile file).1, (s.openFile file).2)
  | .load buffer => (.code (s.load buffer).1, (s.load buffer).2)
  | .close => (.code s.close.1, s.close.2)
  | .register k varname var => (.code 0, s.registerVar k varname var)
  | .read k var varDef =>
      let r := s.readVar k var (varDef.getD k.getDefault)
      (readAnswer k (r.1, r.2.1), r.2.2)

/-! ### The rule -/

/-- What the rule knows: the open file and the registered defaults. -/
structure Rule where
  opened : Option GetPot
  defaults : (k : Kind) → String → Option k.type

def Rule.new : Rule := { opened := none, defaults := fun _ _ => none }

def Rule.register (k : Kind) (varname : String) (var : k.type) (r : Rule) : Rule :=
  { r with
    defaults := Function.update r.defaults k
      (Function.update (r.defaults k) varname (some var)) }

/-- A file is opened if there is none open, it can be read, has no carriage
return and is not empty. -/
def Rule.openFile (contents : Option GetPot) (r : Rule) : Answer × Rule :=
  match r.opened, contents with
  | none, some contents =>
      if contents.size ≤ 1 then (.code 0, r) else (.code 1, { r with opened := some contents })
  | _, _ => (.code 0, r)

/-- The value of the file, else the default of the call, which becomes the
registered one, else the registered default. -/
def Rule.read (k : Kind) (var : String) (varDef : Option k.type) (r : Rule) : Answer × Rule :=
  match r.opened with
  | none => (.notFound, r)
  | some ifile =>
      match ifile.value k var, varDef with
      | some v, _ => (.value k v, r)
      | none, some v => (.value k v, r.register k var v)
      | none, none => ((r.defaults k var).elim .notFound (.value k), r)

def Op.rule (r : Rule) : Op → Answer × Rule
  | .openFile file =>
      r.openFile ((file.filter fun f => f.dosNewline = false).map DiskFile.contents)
  | .load buffer => r.openFile (some buffer)
  | .close => (.code 1, { r with opened := none })
  | .register k varname var => (.code 0, r.register k varname var)
  | .read k var varDef => r.read k var varDef

/-! ### Following the rule -/

/-- The registered defaults are those of the rule. -/
def SameDefaults (s : Input) (r : Rule) : Prop :=
  ∀ (k : Kind) (var : String), s.getVar k var = r.defaults k var

/-- Every call answers as the rule says, and leaves the defaults it says. -/
def Follows : List Op → Input → Rule → Prop
  | [], _, _ => True
  | op :: ops, s, r =>
      (op.perform s).1 = (op.rule r).1 ∧ SameDefaults (op.perform s).2 (op.rule r).2 ∧
        Follows ops (op.perform s).2 (op.rule r).2

/-- The condition under which a read follows the rule. Without a default, or with
the one that means "no default", a file that defines the variable defines it
differently, or that value is the registered default. Another default comes with
a variable that the file does not define, unless it is registered already, and
has no null character. -/
def FineRead (k : Kind) (var : String) (varDef : Option k.type) (ifile : GetPot) (s : Input) :
    Prop :=
  match varDef with
  | none => ifile.value k var ≠ some k.getDefault ∨ s.getVar k var = some k.getDefault
  | some v =>
      if v = k.getDefault then
        (∃ x, ifile.value k var = some x ∧ x ≠ v) ∨ s.getVar k var = some v
      else
        (ifile.value k var = none ∧ k.cStr v = v) ∨
          (ifile.value k var ≠ none ∧ s.getVar k var = some v)

/-- The condition on a call, in the state it finds. -/
def Fine (s : Input) : Op → Prop
  | .read k var varDef => ∀ ifile, s.opened = some ifile → FineRead k var varDef ifile s
  | _ => True

/-- Every call of a sequence is fine in the state it finds. -/
def AllFine : List Op → Input → Prop
  | [], _ => True
  | op :: ops, s => Fine s op ∧ AllFine ops (op.perform s).2

variable {s : Input} {r : Rule} {k : Kind} {var : String} {ops : List Op}

/-! ### Registered defaults -/

/-- The state of the input object is what the rule knows. -/
structure Agrees (s : Input) (r : Rule) : Prop where
  opened : s.opened = r.opened
  defaults : SameDefaults s r

theorem SameDefaults.register (h : SameDefaults s r) (k : Kind) (var : String) (v : k.type) :
    SameDefaults (s.registerVar k var v) (r.register k var v) := by
  intro k' var'
  change _ = Function.update r.defaults k
    (Function.update (r.defaults k) var (some v)) k' var'
  by_cases hk : k' = k
  · subst hk
    rw [Function.update_self]
    by_cases hvar : var' = var
    · simp [hvar]
    · rw [Input.getVar_registerVar_of_ne hvar, Function.update_of_ne hvar]
      exact h k' var'
  · rw [Input.getVar_registerVar_of_ne_kind hk, Function.update_of_ne hk]
    exact h k' var'

/-- A default that is registered already can be registered again. -/
theorem sameDefaults_registerVar_iff (h : SameDefaults s r) (k : Kind) (var : String)
    (v : k.type) :
    SameDefaults (s.registerVar k var v) r ↔ s.getVar k var = some v := by
  constructor
  · intro hsame
    simp [h k var, ← hsame k var]
  · intro hreg k' var'
    by_cases hk : k' = k
    · subst hk
      by_cases hvar : var' = var
      · simp [hvar, ← hreg, h k' var]
      · rw [Input.getVar_registerVar_of_ne hvar]
        exact h k' var'
    · rw [Input.getVar_registerVar_of_ne_kind hk]
      exact h k' var'

/-- A default that is registered already can be taken as registered again. -/
theorem SameDefaults.register_of_registered (h : SameDefaults s r) {v : k.type}
    (hreg : s.getVar k var = some v) : SameDefaults s (r.register k var v) := by
  intro k' var'
  rw [← h.register k var v k' var']
  exact (h k' var').trans
    (((sameDefaults_registerVar_iff h k var v).mpr hreg k' var').symm)

/-! ### One read -/

/-- Without a default, the code cannot tell the default that means "no default"
from a value of the file. -/
theorem read_none_iff {ifile : GetPot} (h : Agrees s r) (hopen : s.opened = some ifile) :
    ((Op.perform s (.read k var none)).1 = (Op.rule r (.read k var none)).1 ∧
      SameDefaults (Op.perform s (.read k var none)).2 (Op.rule r (.read k var none)).2) ↔
      FineRead k var none ifile s := by
  have hrule : r.opened = some ifile := h.opened ▸ hopen
  have hreg := h.defaults k var
  simp only [Op.perform, Op.rule, Rule.read, hrule, Option.getD_none, FineRead,
    Input.readVar_opened hopen, Input.registerDefault_getDefault, GetPot.get, Kind.cStr_getDefault]
  cases hfile : ifile.value k var with
  | none =>
      simp only [Option.getD_none, if_true, ← hreg]
      cases s.getVar k var with
      | none => simp [readAnswer, h.defaults]
      | some v => simp [readAnswer, h.defaults]
  | some x =>
      by_cases hx : x = k.getDefault
      · simp only [Option.getD_some, hx, if_true]
        cases s.getVar k var with
        | none => simp [readAnswer, h.defaults]
        | some v => simp [readAnswer, h.defaults]
      · simp [readAnswer, h.defaults, hx]

/-- A default that means "no default" is taken for none. -/
theorem read_getDefault_iff {ifile : GetPot} (h : Agrees s r) (hopen : s.opened = some ifile) :
    ((Op.perform s (.read k var (some k.getDefault))).1 =
        (Op.rule r (.read k var (some k.getDefault))).1 ∧
      SameDefaults (Op.perform s (.read k var (some k.getDefault))).2
        (Op.rule r (.read k var (some k.getDefault))).2) ↔
      FineRead k var (some k.getDefault) ifile s := by
  have hrule : r.opened = some ifile := h.opened ▸ hopen
  simp only [Op.perform, Op.rule, Rule.read, hrule, Option.getD_some, FineRead, if_true,
    Input.readVar_opened hopen, Input.registerDefault_getDefault, GetPot.get, Kind.cStr_getDefault]
  cases hfile : ifile.value k var with
  | none =>
      simp only [Option.getD_none, if_true]
      cases hreg : s.getVar k var with
      | none => simp [readAnswer]
      | some v =>
          have hsame (hv : v = k.getDefault) : SameDefaults s (r.register k var k.getDefault) :=
            h.defaults.register_of_registered (hv ▸ hreg)
          simpa [readAnswer] using hsame
  | some x =>
      by_cases hx : x = k.getDefault
      · simp only [Option.getD_some, hx, if_true]
        cases s.getVar k var with
        | none => simp [readAnswer]
        | some v => simp [readAnswer, h.defaults]
      · simp [readAnswer, h.defaults, hx]

/-- A default is registered before the file is asked. -/
theorem read_some_iff {ifile : GetPot} {v : k.type} (h : Agrees s r)
    (hopen : s.opened = some ifile) (hv : v ≠ k.getDefault) :
    ((Op.perform s (.read k var (some v))).1 = (Op.rule r (.read k var (some v))).1 ∧
      SameDefaults (Op.perform s (.read k var (some v))).2
        (Op.rule r (.read k var (some v))).2) ↔
      FineRead k var (some v) ifile s := by
  have hrule : r.opened = some ifile := h.opened ▸ hopen
  have hsame := sameDefaults_registerVar_iff h.defaults k var v
  have hregister := h.defaults.register k var v
  simp only [Op.perform, Op.rule, Rule.read, hrule, Option.getD_some, FineRead, if_neg hv,
    Input.readVar_opened hopen, Input.registerDefault_of_ne hv, GetPot.get,
    Input.getVar_registerVar]
  cases hfile : ifile.value k var with
  | none =>
      by_cases hc : k.cStr v = v
      · simp [readAnswer, hc, hregister]
      · simp [readAnswer, hc]
  | some x =>
      by_cases hx : x = v
      · simp [readAnswer, hx, hsame]
      · simp [readAnswer, hx, hsame]

theorem closed_read (h : Agrees s r) (hclosed : s.opened = none) (var : String)
    (varDef : Option k.type) :
    Op.perform s (.read k var varDef) = (.notFound, s) ∧
      Op.rule r (.read k var varDef) = (.notFound, r) := by
  have hrule : r.opened = none := h.opened ▸ hclosed
  constructor
  · simp [Op.perform, Input.readVar_closed hclosed, readAnswer]
  · simp [Op.rule, Rule.read, hrule]

theorem read_follows_iff (h : Agrees s r) (k : Kind) (var : String) (varDef : Option k.type) :
    ((Op.perform s (.read k var varDef)).1 = (Op.rule r (.read k var varDef)).1 ∧
      SameDefaults (Op.perform s (.read k var varDef)).2
        (Op.rule r (.read k var varDef)).2) ↔
      Fine s (.read k var varDef) := by
  cases hopen : s.opened with
  | none =>
      obtain ⟨hcode, hrule⟩ := closed_read h hopen var varDef
      rw [hcode, hrule]
      simp [Fine, hopen, h.defaults]
  | some ifile =>
      have hfine : Fine s (.read k var varDef) ↔ FineRead k var varDef ifile s := by
        simp [Fine, hopen]
      rw [hfine]
      cases varDef with
      | none => exact read_none_iff h hopen
      | some v =>
          by_cases hv : v = k.getDefault
          · subst hv
            exact read_getDefault_iff h hopen
          · exact read_some_iff h hopen hv

/-! ### The other calls -/

theorem initialized_iff : s.initialized = true ↔ s.opened ≠ none := by
  constructor
  · intro hinit hnone
    have hsome := s.isSome_of_initialized hinit
    rw [Input.opened, if_pos hinit] at hnone
    rw [hnone] at hsome
    cases hsome
  · intro hopen
    by_contra hnot
    exact hopen (if_neg hnot)

/-- What is attached is open, unless it is empty. -/
theorem attach_follows (h : Agrees s r) (hclosed : s.opened = none) (contents : GetPot) :
    Answer.code (s.attach contents).1 = (r.openFile (some contents)).1 ∧
      Agrees (s.attach contents).2 (r.openFile (some contents)).2 := by
  have hrule : r.opened = none := h.opened ▸ hclosed
  have hinit : ¬s.initialized = true := fun hinit => initialized_iff.mp hinit hclosed
  simp only [Input.attach, Rule.openFile, hrule]
  by_cases hsize : contents.size ≤ 1
  · rw [if_pos hsize, if_pos hsize]
    exact ⟨rfl, ⟨(if_neg hinit).trans hrule.symm, h.defaults⟩⟩
  · rw [if_neg hsize, if_neg hsize]
    exact ⟨rfl, ⟨rfl, h.defaults⟩⟩

@[simp] theorem openFile_none : r.openFile none = (.code 0, r) := by
  cases hopen : r.opened with
  | none => simp [Rule.openFile, hopen]
  | some ifile => simp [Rule.openFile, hopen]

theorem openFile_of_opened (h : r.opened ≠ none) (contents : Option GetPot) :
    r.openFile contents = (.code 0, r) := by
  cases hopen : r.opened with
  | none => exact absurd hopen h
  | some ifile => simp [Rule.openFile, hopen]

theorem openFile_follows (h : Agrees s r) (file : Option DiskFile) :
    ((Op.openFile file).perform s).1 = (Op.rule r (.openFile file)).1 ∧
      Agrees ((Op.openFile file).perform s).2 (Op.rule r (.openFile file)).2 := by
  simp only [Op.perform, Op.rule, Input.openFile]
  by_cases hinit : s.initialized = true
  · rw [if_pos hinit, openFile_of_opened (h.opened ▸ initialized_iff.mp hinit)]
    exact ⟨rfl, h⟩
  · rw [if_neg hinit]
    have hclosed : s.opened = none := if_neg hinit
    cases file with
    | none =>
        simp only [Option.filter_none, Option.map_none, openFile_none]
        exact ⟨trivial, h⟩
    | some f =>
        by_cases hdos : f.dosNewline = true
        · simp only [hdos, if_true, Option.filter_some, Bool.true_eq_false, decide_false,
            Bool.false_eq_true, if_false, Option.map_none, openFile_none]
          exact ⟨trivial, h⟩
        · simp only [Bool.eq_false_iff.mpr hdos, Bool.false_eq_true, if_false,
            Option.filter_some, decide_true, if_true, Option.map_some]
          exact attach_follows h hclosed f.contents

theorem load_follows (h : Agrees s r) (buffer : GetPot) :
    ((Op.load buffer).perform s).1 = (Op.rule r (.load buffer)).1 ∧
      Agrees ((Op.load buffer).perform s).2 (Op.rule r (.load buffer)).2 := by
  simp only [Op.perform, Op.rule, Input.load]
  by_cases hinit : s.initialized = true
  · rw [if_pos hinit, openFile_of_opened (h.opened ▸ initialized_iff.mp hinit)]
    exact ⟨rfl, h⟩
  · rw [if_neg hinit]
    exact attach_follows h (if_neg hinit) buffer

theorem close_follows (h : Agrees s r) :
    (Op.close.perform s).1 = (Op.rule r .close).1 ∧
      Agrees (Op.close.perform s).2 (Op.rule r .close).2 := by
  simp only [Op.perform, Op.rule, Input.close]
  by_cases hinit : s.initialized = true
  · rw [if_pos hinit]
    exact ⟨rfl, ⟨rfl, h.defaults⟩⟩
  · rw [if_neg hinit]
    exact ⟨rfl, ⟨if_neg hinit, h.defaults⟩⟩

/-! ### Whole sequences -/

@[simp]
theorem opened_readVar (varDef : k.type) : (s.readVar k var varDef).2.2.opened = s.opened := by
  cases hopen : s.opened with
  | none => rw [Input.readVar_closed hopen, hopen]
  | some ifile =>
      rw [Input.readVar_opened hopen]
      split <;> exact Input.opened_registerDefault.trans hopen

theorem opened_rule_read (varDef : Option k.type) : (r.read k var varDef).2.opened = r.opened := by
  cases hopen : r.opened with
  | none => simp [Rule.read, hopen]
  | some ifile =>
      cases hfile : ifile.value k var with
      | some v => simp [Rule.read, hopen, hfile]
      | none =>
          cases varDef with
          | none => simp [Rule.read, hopen, hfile]
          | some v => simp [Rule.read, hopen, hfile, Rule.register]

/-- A call follows the rule if and only if it is fine, and the file that is open is
the rule's either way. -/
theorem perform_follows_iff (h : Agrees s r) (op : Op) :
    ((op.perform s).1 = (op.rule r).1 ∧ SameDefaults (op.perform s).2 (op.rule r).2 ↔
      Fine s op) ∧
      (op.perform s).2.opened = (op.rule r).2.opened := by
  cases op with
  | openFile file =>
      obtain ⟨hcode, hagrees⟩ := openFile_follows h file
      exact ⟨iff_of_true ⟨hcode, hagrees.defaults⟩ trivial, hagrees.opened⟩
  | load buffer =>
      obtain ⟨hcode, hagrees⟩ := load_follows h buffer
      exact ⟨iff_of_true ⟨hcode, hagrees.defaults⟩ trivial, hagrees.opened⟩
  | close =>
      obtain ⟨hcode, hagrees⟩ := close_follows h
      exact ⟨iff_of_true ⟨hcode, hagrees.defaults⟩ trivial, hagrees.opened⟩
  | register k varname var =>
      exact ⟨iff_of_true ⟨rfl, h.defaults.register k varname var⟩ trivial, h.opened⟩
  | read k var varDef =>
      refine ⟨read_follows_iff h k var varDef, ?_⟩
      exact (opened_readVar (varDef.getD k.getDefault)).trans
        (h.opened.trans (opened_rule_read varDef).symm)

theorem agrees_new : Agrees Input.new Rule.new where
  opened := rfl
  defaults _ _ := TreeMap.getElem?_emptyc

theorem follows_iff_of_agrees (ops : List Op) {s : Input} {r : Rule} (h : Agrees s r) :
    Follows ops s r ↔ AllFine ops s := by
  induction ops generalizing s r with
  | nil => exact Iff.rfl
  | cons op ops ih =>
      obtain ⟨hone, hopened⟩ := perform_follows_iff h op
      rw [Follows, AllFine, ← hone, ← and_assoc]
      exact and_congr_right fun ⟨_, hdefaults⟩ => ih ⟨hopened, hdefaults⟩

/-- From a new object, every call of a sequence follows the precedence rule if and
only if every call is fine. -/
theorem follows_iff (ops : List Op) : Follows ops Input.new Rule.new ↔ AllFine ops Input.new :=
  follows_iff_of_agrees ops agrees_new

/-! ### Where the rule is not followed -/

/-- A file with the one line `x = v`. -/
def oneLine (v : ℤ) : GetPot where
  value
    | .int, var => if var = "x" then some v else none
    | _, _ => none
  cStr_value k var v h := by
    cases k with
    | string => cases h
    | _ => rfl
  bool _ := none
  size := 2

/-- A file that does not define anything that is asked for. -/
def noLine : GetPot where
  value _ _ := none
  cStr_value _ _ _ h := by cases h
  bool _ := none
  size := 2

/-- A variable with the value that means "no default" is not found, or is replaced
by the registered default. A default given for a variable that the file defines is
registered, and another file gets it. -/
theorem rule_not_followed :
    ¬Follows [.load (oneLine (-9999999)), .read .int "x" none] Input.new Rule.new ∧
      ¬Follows [.register .int "x" (7 : ℤ), .load (oneLine (-9999999)), .read .int "x" none]
        Input.new Rule.new ∧
      ¬Follows [.load (oneLine 3), .read .int "x" (some (5 : ℤ)), .close, .load noLine,
        .read .int "x" none] Input.new Rule.new := by
  refine ⟨?_, ?_, ?_⟩
  · rintro ⟨-, -, hread, -⟩
    exact absurd hread (by decide +kernel)
  · rintro ⟨-, -, -, -, hread, -⟩
    exact absurd hread (by decide +kernel)
  · rintro ⟨-, -, -, -, -, -, -, -, hread, -⟩
    exact absurd hread (by decide +kernel)

end Grvy.Lookup
