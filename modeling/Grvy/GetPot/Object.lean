import Grvy.GetPot.Sections
import Grvy.GetPot.Expressions

/-!
The GetPot object: how it is made from arguments, and its variables.

Arguments come from a command line or are the tokens of a file. An argument in brackets is
the label of a section. Any other one is expanded and has the section in front of it, and
what is in front of its first `=` is the name of a variable. Whatever the arguments are, the
variables are the assignments among the arguments that have been stored, the last one of
each name.

The prefix is empty and requests are recorded, as in all programs of the library; requests of
variables are left out. Making an object need not end, because of labels and brackets.
-/

namespace Grvy.GetPot

open Grvy.Lib

/-! ### Variables -/

/-- The name and the value in an argument with an `=`. -/
def splitAssignment (arg : CText) : Option (CText × CText) :=
  let p := cStr arg
  if '=' ∈ p then some (p.takeWhile (· ≠ '='), (p.dropWhile (· ≠ '=')).tail) else none

def isMinus (arg : CText) : Bool := arg.head? = some '-'

/-- `__set_variable`: the variable of this name takes the value, or there is a new one. -/
def setVariable (varName value : CText) : List Variable → List Variable
  | [] => [Variable.take varName value]
  | v :: vars =>
      if v.name = varName then Variable.take v.name value :: vars
      else v :: setVariable varName value vars

/-- What an argument does to the variables. -/
def assign (vars : List Variable) (arg : CText) : List Variable :=
  match splitAssignment arg with
  | none => vars
  | some (varName, value) => setVariable varName value vars

/-! ### Arguments -/

structure Object where
  argv : List CText
  /-- The positions of the arguments that do not begin with a minus. -/
  idxNominus : List ℕ
  scope : Scope
  sectionList : List CText
  requestedArguments : List CText

/-- The object before it has been given any arguments, with the name of the program or file. -/
def Object.initial (name : CText) : Object where
  argv := [name]
  idxNominus := []
  scope := { activeSection := [], vars := [] }
  sectionList := []
  requestedArguments := []

namespace Object

/-- The end of a round of `__parse_argument_vector`, for the argument that has been stored. -/
def recordArgument (i : ℕ) (arg : CText) (o : Object) : Object :=
  { o with
    idxNominus := if arg.head? ≠ some '-' then o.idxNominus ++ [i] else o.idxNominus
    requestedArguments :=
      if (splitAssignment arg).isSome then o.requestedArguments ++ [arg]
      else o.requestedArguments
    scope := { o.scope with vars := assign o.scope.vars arg } }

/-- A new section is open. -/
def openSection (arg newSection : CText) (o : Object) : Object :=
  { o with
    argv := o.argv ++ [arg]
    scope := { o.scope with activeSection := newSection }
    sectionList :=
      if newSection ∈ o.sectionList ∨ newSection = [] then o.sectionList
      else o.sectionList ++ [newSection]
    requestedArguments := o.requestedArguments ++ [arg] }

def storeArgument (arg : CText) (o : Object) : Object := { o with argv := o.argv ++ [arg] }

end Object

def isLabel (arg : CText) : Bool :=
  1 < arg.length && arg.head? = some '[' && arg.getLast? = some ']'

variable (d : Doubles) (fuel : ℕ)

/-- A round of `__parse_argument_vector`, for the argument at position `i`; the stack of
sections is carried along. -/
def parseArgument (i : ℕ) (arg : CText) (s : Object × List CText) :
    Option (Object × List CText) :=
  if arg = [] then some s
  else if isLabel arg then
    (dbeExpandString d s.1.scope fuel arg.tail.dropLast).bind fun name =>
      (processSectionLabel fuel name s.2).map fun r =>
        ((s.1.openSection arg r.1).recordArgument i arg, r.2)
  else
    (dbeExpandString d s.1.scope fuel arg).map fun text =>
      ((s.1.storeArgument (s.1.scope.activeSection ++ text)).recordArgument i
        (s.1.scope.activeSection ++ text), s.2)

/-- The loop of `__parse_argument_vector`. An argument that is empty is left out but counted. -/
def parseFrom (i : ℕ) : List CText → Object × List CText → Option (Object × List CText)
  | [], s => some s
  | arg :: args, s => (parseArgument d fuel i arg s).bind (parseFrom (i + 1) args)

/-- The constructors: the first argument is not parsed. -/
def construct (name : CText) (args : List CText) : Option Object :=
  (parseFrom d fuel 1 args (Object.initial name, [])).map Prod.fst

/-! ### What the variables are -/

section Variables

variable {varName value name : CText} {vars : List Variable} {v : Variable}

theorem mem_names_setVariable :
    name ∈ (setVariable varName value vars).map Variable.name ↔
      name = varName ∨ name ∈ vars.map Variable.name := by
  induction vars with
  | nil => simp [setVariable, Variable.take]
  | cons w vars ih =>
      rw [setVariable]
      split
      · next h => simp [Variable.take, h]
      · rw [List.map_cons, List.mem_cons, ih, List.map_cons, List.mem_cons]
        exact or_left_comm

/-- No name comes to have two variables. -/
theorem nodup_setVariable (h : (vars.map Variable.name).Nodup) :
    ((setVariable varName value vars).map Variable.name).Nodup := by
  induction vars with
  | nil => exact List.nodup_singleton _
  | cons w vars ih =>
      obtain ⟨hw, hvars⟩ := List.nodup_cons.mp h
      rw [setVariable]
      split
      · exact h
      · next hne =>
          refine List.nodup_cons.mpr ⟨fun hmem => ?_, ih hvars⟩
          rcases mem_names_setVariable.mp hmem with heq | hmem
          · exact hne heq
          · exact hw hmem

theorem findVariable_cons (w : Variable) :
    findVariable [] name (w :: vars) =
      if w.name = cStr name then some w else findVariable [] name vars := by
  rw [findVariable, List.find?_cons, List.nil_append]
  by_cases h : w.name = cStr name
  · simp [h]
  · simp [h, findVariable]

/-- A variable that has been set is found with its new value, and all others are as before. -/
theorem findVariable_setVariable :
    findVariable [] name (setVariable varName value vars) =
      if varName = cStr name then some (Variable.take varName value)
      else findVariable [] name vars := by
  induction vars with
  | nil => rw [setVariable, findVariable_cons]; rfl
  | cons w vars ih =>
      rw [setVariable]
      split
      · next h =>
          have hname : (Variable.take w.name value).name = w.name := rfl
          rw [findVariable_cons, findVariable_cons, hname, ← h]
          by_cases heq : w.name = cStr name
          · rw [if_pos heq, if_pos heq]
          · rw [if_neg heq, if_neg heq, if_neg heq]
      · next h =>
          rw [findVariable_cons, findVariable_cons, ih]
          split
          · next heq => rw [if_neg fun h' => h (heq.trans h'.symm)]
          · rfl

/-- The last value that arguments give to a name. -/
def lastValue (name : CText) (args : List CText) : Option CText :=
  ((args.filterMap splitAssignment).reverse.find? fun a => a.1 = cStr name).map Prod.snd

theorem findVariable_assign (args : List CText) :
    findVariable [] name (args.foldl assign []) =
      (lastValue name args).map (Variable.take (cStr name)) := by
  induction args using List.reverseRecOn with
  | nil => rfl
  | append_singleton args arg ih =>
      rw [List.foldl_append, List.foldl_cons, List.foldl_nil, assign, lastValue,
        List.filterMap_append, List.filterMap_cons]
      cases hsplit : splitAssignment arg with
      | none => simpa [lastValue] using ih
      | some a =>
          obtain ⟨n, x⟩ := a
          simp only [List.filterMap_nil, List.reverse_append, List.reverse_singleton,
            List.singleton_append, List.find?_cons, findVariable_setVariable]
          by_cases h : n = cStr name
          · simp [h]
          · simpa [h, lastValue] using ih

theorem nodup_assign (args : List CText) :
    ((args.foldl assign []).map Variable.name).Nodup := by
  induction args using List.reverseRecOn with
  | nil => exact List.nodup_nil
  | append_singleton args arg ih =>
      rw [List.foldl_append, List.foldl_cons, List.foldl_nil, assign]
      split
      · exact ih
      · exact nodup_setVariable ih

end Variables

/-! ### Runs -/

variable {d fuel}

/-- The variables are the assignments among the arguments that have been stored. -/
structure Object.Coherent (o : Object) : Prop where
  argv_ne_nil : o.argv ≠ []
  vars : o.scope.vars = o.argv.tail.foldl assign []

namespace Object

variable {o : Object} {i : ℕ} {arg : CText}

theorem Coherent.record (h : o.Coherent) {o' : Object} (hargv : o'.argv = o.argv ++ [arg])
    (hvars : o'.scope.vars = o.scope.vars) : (o'.recordArgument i arg).Coherent := by
  have hne : o'.argv ≠ [] := by
    rw [hargv]
    exact List.append_ne_nil_of_right_ne_nil _ (List.cons_ne_nil arg [])
  refine ⟨hne, ?_⟩
  show assign o'.scope.vars arg = o'.argv.tail.foldl assign []
  rw [hargv, List.tail_append_of_ne_nil h.argv_ne_nil, List.foldl_append, ← h.vars, hvars]
  rfl

end Object

theorem coherent_parseArgument {i : ℕ} {arg : CText} {s s' : Object × List CText}
    (h : s.1.Coherent) (hparse : parseArgument d fuel i arg s = some s') : s'.1.Coherent := by
  rw [parseArgument] at hparse
  split at hparse
  · obtain rfl := Option.some.inj hparse
    exact h
  · split at hparse
    · obtain ⟨name, -, hlabel⟩ := Option.bind_eq_some_iff.mp hparse
      obtain ⟨r, -, rfl⟩ := Option.map_eq_some_iff.mp hlabel
      exact h.record rfl rfl
    · obtain ⟨text, -, rfl⟩ := Option.map_eq_some_iff.mp hparse
      exact h.record rfl rfl

theorem coherent_parseFrom {args : List CText} {i : ℕ} {s s' : Object × List CText}
    (h : s.1.Coherent) (hparse : parseFrom d fuel i args s = some s') : s'.1.Coherent := by
  induction args generalizing i s with
  | nil =>
      obtain rfl := Option.some.inj hparse
      exact h
  | cons arg args ih =>
      obtain ⟨s₁, hfirst, hrest⟩ := Option.bind_eq_some_iff.mp hparse
      exact ih (coherent_parseArgument h hfirst) hrest

theorem coherent_construct {name : CText} {args : List CText} {o : Object}
    (h : construct d fuel name args = some o) : o.Coherent := by
  obtain ⟨s, hparse, rfl⟩ := Option.map_eq_some_iff.mp h
  exact coherent_parseFrom ⟨List.cons_ne_nil _ _, rfl⟩ hparse

/-- **Variables.** Whatever the arguments are, every name has at most one variable. It holds
the last value that a stored argument gives to the name, and the fields of this value. -/
theorem variables_construct {name : CText} {args : List CText} {o : Object}
    (h : construct d fuel name args = some o) :
    (o.scope.vars.map Variable.name).Nodup ∧
      ∀ varName, findVariable [] varName o.scope.vars =
        (lastValue varName o.argv.tail).map (Variable.take (cStr varName)) := by
  have hcoherent := coherent_construct h
  refine ⟨?_, fun varName => ?_⟩
  · rw [hcoherent.vars]
    exact nodup_assign _
  · rw [hcoherent.vars, findVariable_assign]

theorem last_value_kept :
    ∃ o, construct wholeDoubles 3 "p".toList
        ["[s]".toList, "x=1".toList, "[]".toList, "s/x=2".toList] = some o ∧
      findVariable [] "s/x".toList o.scope.vars =
        some (Variable.take "s/x".toList "2".toList) := by
  have h : construct wholeDoubles 3 "p".toList
      ["[s]".toList, "x=1".toList, "[]".toList, "s/x=2".toList] = some _ := rfl
  exact ⟨_, h, ((variables_construct h).2 "s/x".toList).trans (by decide)⟩

/-! ### Arguments without brackets -/

/-- What an argument does if no bracket opens in it. -/
def readArgument (i : ℕ) (arg : CText) (s : Object × List CText) : Object × List CText :=
  if arg = [] then s
  else if isLabel arg then
    let stack := labelTarget s.2 arg.tail.dropLast
    ((s.1.openSection arg (sectionText stack)).recordArgument i arg, stack)
  else
    let stored := s.1.scope.activeSection ++ arg
    ((s.1.storeArgument stored).recordArgument i stored, s.2)

def readFrom (i : ℕ) : List CText → Object × List CText → Object × List CText
  | [], s => s
  | arg :: args, s => readFrom (i + 1) args (readArgument i arg s)

/-- The label in an argument can be processed. -/
def EndsIfLabel (arg : CText) : Prop := isLabel arg = true → LabelEnds arg.tail.dropLast

theorem IsText.infix {t t' : CText} (h : IsText t) (hin : t' <:+: t) : IsText t' :=
  fun h' => h (h'.trans hin)

theorem stable_parseArgument {i : ℕ} {arg : CText} {s : Object × List CText} (h : IsText arg) :
    Stable fun n => parseArgument d n i arg s := by
  have hlabel : IsText arg.tail.dropLast :=
    h.infix ((List.dropLast_prefix _).isInfix.trans (List.tail_suffix _).isInfix)
  simp only [parseArgument, dbeExpandString_eq_self h, dbeExpandString_eq_self hlabel,
    Option.bind_some, Option.map_some]
  split
  · exact stable_const _
  · split
    · exact (stable_processSectionLabel _ _).map _
    · exact stable_const _

theorem parseArgument_settles_iff {i : ℕ} {arg : CText} {s s' : Object × List CText}
    (h : IsText arg) :
    Settles (fun n => parseArgument d n i arg s) s' ↔
      EndsIfLabel arg ∧ s' = readArgument i arg s := by
  have hlabel : IsText arg.tail.dropLast :=
    h.infix ((List.dropLast_prefix _).isInfix.trans (List.tail_suffix _).isInfix)
  simp only [parseArgument, readArgument, dbeExpandString_eq_self h,
    dbeExpandString_eq_self hlabel, Option.bind_some, Option.map_some]
  by_cases hnil : arg = []
  · have hno : EndsIfLabel arg := by
      rw [hnil]
      exact fun hfalse => absurd hfalse (by decide)
    simp only [if_pos hnil, settles_const_iff, Option.some.injEq]
    exact ⟨fun heq => ⟨hno, heq.symm⟩, fun heq => heq.2.symm⟩
  · simp only [if_neg hnil]
    by_cases hbrackets : isLabel arg = true
    · simp only [if_pos hbrackets]
      constructor
      · intro hsettles
        obtain ⟨n, hn⟩ := hsettles.exists
        obtain ⟨r, hr, rfl⟩ := Option.map_eq_some_iff.mp hn
        obtain ⟨hends, rfl⟩ := (processSectionLabel_settles_iff _ _ r).mp
          ((stable_processSectionLabel _ _).settles hr)
        exact ⟨fun _ => hends, rfl⟩
      · rintro ⟨hends, rfl⟩
        exact ((processSectionLabel_settles_iff _ _ _).mpr ⟨hends hbrackets, rfl⟩).map _
    · simp only [if_neg hbrackets, settles_const_iff, Option.some.injEq]
      exact ⟨fun heq => ⟨fun hlab => absurd hlab hbrackets, heq.symm⟩, fun heq => heq.2.symm⟩

theorem stable_parseFrom {args : List CText} (h : ∀ arg ∈ args, IsText arg) (i : ℕ)
    (s : Object × List CText) : Stable fun n => parseFrom d n i args s := by
  induction args generalizing i s with
  | nil => exact stable_const _
  | cons arg args ih =>
      have hargs : ∀ x ∈ args, IsText x := fun x hx => h x (List.mem_cons_of_mem arg hx)
      exact (stable_parseArgument (h arg List.mem_cons_self)).bind fun s' => ih hargs (i + 1) s'

theorem parseFrom_settles_iff {args : List CText} (h : ∀ arg ∈ args, IsText arg) {i : ℕ}
    {s s' : Object × List CText} :
    Settles (fun n => parseFrom d n i args s) s' ↔
      (∀ arg ∈ args, EndsIfLabel arg) ∧ s' = readFrom i args s := by
  induction args generalizing i s with
  | nil =>
      simp only [parseFrom, settles_const_iff, Option.some.injEq, readFrom]
      simp [eq_comm]
  | cons arg args ih =>
      have harg := h arg List.mem_cons_self
      have hargs : ∀ x ∈ args, IsText x := fun x hx => h x (List.mem_cons_of_mem arg hx)
      simp only [parseFrom, settles_bind_iff (stable_parseArgument harg),
        parseArgument_settles_iff harg, ih hargs, List.forall_mem_cons, readFrom]
      constructor
      · rintro ⟨s₁, ⟨hends, rfl⟩, hrest, rfl⟩
        exact ⟨⟨hends, hrest⟩, rfl⟩
      · rintro ⟨⟨hends, hrest⟩, rfl⟩
        exact ⟨_, ⟨hends, rfl⟩, hrest, rfl⟩

/-- Of arguments in which no bracket opens an object is made if and only if no label among
them has a slash in the last two characters of its path. -/
theorem construct_settles_iff (d : Doubles) {args : List CText} (h : ∀ arg ∈ args, IsText arg)
    (name : CText) (o : Object) :
    Settles (fun n => construct d n name args) o ↔
      (∀ arg ∈ args, EndsIfLabel arg) ∧ o = (readFrom 1 args (Object.initial name, [])).1 := by
  constructor
  · intro hsettles
    obtain ⟨n, hn⟩ := hsettles.exists
    obtain ⟨s, hs, rfl⟩ := Option.map_eq_some_iff.mp hn
    obtain ⟨hends, rfl⟩ := (parseFrom_settles_iff h).mp ((stable_parseFrom h _ _).settles hs)
    exact ⟨hends, rfl⟩
  · rintro ⟨hends, rfl⟩
    exact ((parseFrom_settles_iff h).mpr ⟨hends, rfl⟩).map _

/-- The path of this label ends in a slash and one character. -/
theorem short_section_hangs :
    ¬∃ o, Settles (fun n => construct wholeDoubles n "p".toList ["[a/b]".toList]) o := by
  rintro ⟨o, hsettles⟩
  have htext : ∀ arg ∈ ["[a/b]".toList], IsText arg := by decide
  have hends := ((construct_settles_iff wholeDoubles htext "p".toList o).mp hsettles).1
  exact absurd (hends _ List.mem_cons_self rfl) (by decide)

end Grvy.GetPot
