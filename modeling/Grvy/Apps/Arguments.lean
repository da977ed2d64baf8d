import Grvy.GetPot.CommandLine
import Grvy.Apps.Gadd
import Grvy.History.HostReport
import Grvy.Lib.Yields

/-!
The command lines of `gadd` and `gdump` as GetPot reads them, with its cursor and its record
of what has been asked for.

A program makes its requests one after the other, so each finds the cursor where the last
request has left it. Nevertheless what a request gives depends on the arguments only, if each
option with a value is there once at most.
-/

namespace Grvy.Apps

open Grvy.Lib
open GetPot (isMinus)

/-- Requests to GetPot, one after the other. There is no value where a vector is read behind
its end. -/
abbrev Requests := StateT GetPot.CommandLine Option

/-- `search` -/
def find (opts : List CText) : Requests Bool := fun cl => some (cl.searchAny opts)

/-- `next` -/
def read {T : Type} (convert : CText → T → T) (default : T) : Requests T :=
  fun cl => some (cl.next convert default)

def readNominus : Requests (List CText) := GetPot.CommandLine.nominusVector

def readUnidentified : Requests (List CText) := fun cl => some (cl.unidentifiedOptions, cl)

/-! ### Switches -/

/-- The priorities of messages that a program can set. -/
inductive PriorityLevel where
  | error
  | info
  | debug
  deriving DecidableEq

/-- What the switches of a program set: the options of its timer and its log level. -/
structure Switches where
  options : History.PrintOptions
  logLevel : PriorityLevel

/-- The options of a new timer, and the level of a new log. -/
def Switches.default : Switches where
  options :=
    { outputStdout := true
      outputTotaltimerRaw := true
      outputSubtimerRaw := false
      dumpFiles := true
      outputComments := false
      outputPrintenv := false }
  logLevel := .info

/-- `SetOption`. An unknown name is ignored. -/
def setOption (option : String) (flag : Bool) (s : Switches) : Switches :=
  match option with
  | "output_stdout" => { s with options := { s.options with outputStdout := flag } }
  | "output_totaltimer_raw" => { s with options := { s.options with outputTotaltimerRaw := flag } }
  | "output_subtimer_raw" => { s with options := { s.options with outputSubtimerRaw := flag } }
  | "dump_files" => { s with options := { s.options with dumpFiles := flag } }
  | "output_comments" => { s with options := { s.options with outputComments := flag } }
  | "output_printenv" => { s with options := { s.options with outputPrintenv := flag } }
  | _ => s

/-- `grvy_log_setlevel` -/
def setLogLevel (level : PriorityLevel) (s : Switches) : Switches := { s with logLevel := level }

/-- Options without a value, and what they set. -/
def readSwitch (opts : List CText) (set : Switches → Switches) (s : Switches) :
    Requests Switches := do
  if ← find opts then return set s else return s

/-- What a switch sets if it is there. -/
def switched (args opts : List CText) (set : Switches → Switches) (s : Switches) : Switches :=
  if ∃ opt ∈ opts, opt ∈ args then set s else s

/-! ### Options with a value -/

/-- An option with a value: `read_optional_argument` of `gadd`, and twice in `gdump`. -/
def takeOptionalArgument {T : Type} (convert : CText → T → T) (lexicalCast : T → CText)
    (optText1 optText2 : CText) (varname : T) (arguments : List CText) :
    Requests (T × List CText) := do
  if ← find [optText1, optText2] then
    let varname ← read convert varname
    return (varname, popArgument arguments (lexicalCast varname))
  else return (varname, arguments)

def takeOptionalString (optText1 optText2 varname : CText) (arguments : List CText) :
    Requests (CText × List CText) :=
  takeOptionalArgument (fun text _ => GetPot.cStr text) id optText1 optText2 varname arguments

/-- What is recorded of an option with a value. -/
def recordedValue (args : List CText) (optText1 optText2 : CText) : List CText :=
  GetPot.recorded args [optText1, optText2] ++
    ((search2 optText1 optText2 args).bind List.head?).toList

/-- The arguments that are not supported by a program with these switches and options with a
value: they have a minus, are no assignments and have not been asked for. -/
def unsupported (switches : List (List CText)) (valued : List (CText × CText))
    (args : List CText) : List CText :=
  args.filter fun arg => isMinus arg && (GetPot.splitAssignment arg).isNone &&
    arg ∉ switches.flatMap (GetPot.recorded args) &&
    arg ∉ valued.flatMap fun opt => recordedValue args opt.1 opt.2

/-- A command line whose arguments are stored as they are, and none of them empty. The name of
the program is no option. -/
structure PlainCommand (name : CText) (args : List CText) : Prop where
  plain : ∀ arg ∈ args, GetPot.IsPlainArgument arg
  notMem_nil : [] ∉ args
  name : isMinus name = false

/-- A text that is an input of the program. -/
structure IsInput (text : CText) : Prop where
  plain : GetPot.IsPlainArgument text
  ne_nil : text ≠ []
  nominus : isMinus text = false

instance (text : CText) : Decidable (IsInput text) :=
  decidable_of_iff (GetPot.IsPlainArgument text ∧ text ≠ [] ∧ isMinus text = false)
    ⟨fun h => ⟨h.1, h.2.1, h.2.2⟩, fun h => ⟨h.plain, h.ne_nil, h.nominus⟩⟩

/-- Options that can be searched for after the values of those in `taken` have been read. -/
def Fresh (opts taken : List CText) : Prop := ∀ opt ∈ opts, isMinus opt = true ∧ opt ∉ taken

instance (opts taken : List CText) : Decidable (Fresh opts taken) :=
  inferInstanceAs (Decidable (∀ opt ∈ opts, isMinus opt = true ∧ opt ∉ taken))

/-- Options that are there once at most. -/
def AtMostOnce (opts args : List CText) : Prop := ∀ opt ∈ opts, args.count opt ≤ 1

instance (opts args : List CText) : Decidable (AtMostOnce opts args) :=
  inferInstanceAs (Decidable (∀ opt ∈ opts, args.count opt ≤ 1))

section Requests

variable {name : CText} {args taken requested opts : List CText}

theorem PlainCommand.reading (h : PlainCommand name args) (d : GetPot.Doubles) :
    ∃ o, Settles (fun n => GetPot.construct d n name args) o ∧
      GetPot.Reading name args []
        (args.filter fun arg => (GetPot.splitAssignment arg).isSome)
        (GetPot.CommandLine.ofObject o) :=
  GetPot.reading_construct d h.plain h.notMem_nil name

theorem mem_recorded {text p : CText} :
    text ∈ GetPot.recorded args (p :: opts) ↔ text = p ∨ text ∈ opts ∧ p ∉ args := by
  rw [GetPot.recorded]
  by_cases hp : p ∈ args
  · simp [hp]
  · simp [hp]

theorem mem_of_mem_recorded {text : CText} (h : text ∈ GetPot.recorded args opts) :
    text ∈ opts := by
  cases opts with
  | nil => exact h
  | cons p opts =>
      rcases mem_recorded.mp h with rfl | ⟨hmem, -⟩
      · exact List.mem_cons_self
      · exact List.mem_cons_of_mem p hmem

theorem Fresh.ne_name (h : Fresh opts taken) (hname : isMinus name = false) :
    ∀ opt ∈ opts, opt ≠ name ∧ opt ∉ taken := by
  intro opt hopt
  refine ⟨?_, (h opt hopt).2⟩
  rintro rfl
  rw [(h opt hopt).1] at hname
  cases hname

theorem search_eq_none_iff {option : CText} : search option args = none ↔ option ∉ args := by
  induction args with
  | nil => simp [search]
  | cons arg args ih =>
      rw [search]
      by_cases harg : arg = option
      · simp [harg]
      · rw [if_neg harg, ih, List.mem_cons, not_or]
        exact ⟨fun h => ⟨Ne.symm harg, h⟩, And.right⟩

theorem exists_search {option : CText} (h : option ∈ args) :
    ∃ rest, search option args = some rest :=
  Option.ne_none_iff_exists'.mp (mt search_eq_none_iff.mp (not_not.mpr h))

theorem search_append_of_notMem {option : CText} {front : List CText} (h : option ∉ front)
    (back : List CText) : search option (front ++ back) = search option back := by
  induction front with
  | nil => rfl
  | cons arg front ih =>
      rw [List.mem_cons, not_or] at h
      rw [List.cons_append, search, if_neg (Ne.symm h.1), ih h.2]

/-- What follows an option that is there once. -/
theorem search_of_getElem? {option : CText} {i : ℕ} (honce : args.count option ≤ 1)
    (hi : args[i]? = some option) : search option args = some (args.drop (i + 1)) := by
  induction args generalizing i with
  | nil => cases hi
  | cons arg args ih =>
      rw [search]
      by_cases harg : arg = option
      · cases i with
        | zero => rw [if_pos harg, Nat.zero_add, List.drop_one, List.tail_cons]
        | succ i =>
            have hmem : option ∈ args := List.mem_of_getElem? hi
            have hpos := List.count_pos_iff.mpr hmem
            rw [harg, List.count_cons_self] at honce
            omega
      · cases i with
        | zero => exact absurd (Option.some.inj hi) harg
        | succ i =>
            rw [List.count_cons_of_ne harg] at honce
            rw [if_neg harg, ih honce hi, List.drop_succ_cons]

theorem mem_of_search {option : CText} {rest : List CText} (h : search option args = some rest) :
    ∀ text ∈ rest, text ∈ args := by
  induction args with
  | nil => cases h
  | cons arg args ih =>
      intro text htext
      rw [search] at h
      by_cases harg : arg = option
      · rw [if_pos harg] at h
        obtain rfl := Option.some.inj h
        exact List.mem_cons_of_mem arg htext
      · rw [if_neg harg] at h
        exact List.mem_cons_of_mem arg (ih h text htext)

/-- A search for two texts is one for the first of them that is there. -/
theorem search2_eq (optText1 optText2 : CText) (args : List CText) :
    search2 optText1 optText2 args =
      ([optText1, optText2].find? (· ∈ args)).bind fun opt => search opt args := by
  rw [search2]
  by_cases h1 : optText1 ∈ args
  · obtain ⟨rest, hrest⟩ := exists_search h1
    simp [h1, hrest]
  · rw [search_eq_none_iff.mpr h1, Option.none_or]
    by_cases h2 : optText2 ∈ args
    · simp [h1, h2]
    · simp [h1, h2, search_eq_none_iff.mpr h2]

/-- A search gives whether one of the options is there. -/
theorem yields_find (hcommand : PlainCommand name args) (hopts : Fresh opts taken) :
    Yields (GetPot.Reading name args taken requested) (find opts)
      (decide (∃ opt ∈ opts, opt ∈ args))
      (GetPot.Reading name args taken (requested ++ GetPot.recorded args opts)) := by
  intro cl h
  obtain ⟨hfound, -, hreading⟩ := h.searchAny (hopts.ne_name hcommand.name)
  refine ⟨(cl.searchAny opts).2, ?_, hreading⟩
  have hsome : (opts.find? (· ∈ args)).isSome = decide (∃ opt ∈ opts, opt ∈ args) := by
    rw [Bool.eq_iff_iff, List.find?_isSome]
    simp
  rw [find, ← hsome, ← hfound]

/-- A program that is done if one of the options is there. -/
theorem yields_guard {α : Type} {m : Requests α} {done a : α} {p : Prop} [Decidable p]
    (hcommand : PlainCommand name args) (hopts : Fresh opts taken)
    (hp : p ↔ ∃ opt ∈ opts, opt ∈ args)
    (hrest : Yields (GetPot.Reading name args taken (requested ++ GetPot.recorded args opts)) m a
      fun _ => True) :
    Yields (GetPot.Reading name args taken requested)
      (find opts >>= fun found => if found = true then pure done else m)
      (if p then done else a) fun _ => True := by
  refine (yields_find hcommand hopts).bind ?_
  by_cases h : p
  · rw [decide_eq_true (hp.mp h), if_pos h]
    exact (yields_pure _ done).mono fun _ _ => trivial
  · rw [decide_eq_false (mt hp.mpr h), if_neg h]
    exact hrest

theorem yields_readSwitch (hcommand : PlainCommand name args) (hopts : Fresh opts taken)
    (set : Switches → Switches) (s : Switches) :
    Yields (GetPot.Reading name args taken requested) (readSwitch opts set s)
      (switched args opts set s)
      (GetPot.Reading name args taken (requested ++ GetPot.recorded args opts)) := by
  refine (yields_find hcommand hopts).bind ?_
  rw [switched]
  by_cases hmem : ∃ opt ∈ opts, opt ∈ args
  · rw [decide_eq_true hmem, if_pos hmem]
    exact yields_pure _ _
  · rw [decide_eq_false hmem, if_neg hmem]
    exact yields_pure _ _

/-- A search gets to the first of the options that is there. -/
theorem yields_find_at {option : CText} (hcommand : PlainCommand name args)
    (hopts : Fresh opts taken) (hoption : opts.find? (· ∈ args) = some option) :
    Yields (GetPot.Reading name args taken requested) (find opts) true fun cl =>
      GetPot.Reading name args taken (requested ++ GetPot.recorded args opts) cl ∧
        GetPot.AtOption args option cl := by
  intro cl h
  obtain ⟨hfound, hat, hreading⟩ := h.searchAny (hopts.ne_name hcommand.name)
  refine ⟨(cl.searchAny opts).2, ?_, hreading, hat option hoption⟩
  rw [hoption] at hfound
  rw [find, ← Option.isSome_some, ← hfound]

/-- What is read at an option that is there once is what follows it, or the default. -/
theorem yields_read {T : Type} {option : CText} (hcommand : PlainCommand name args)
    (honce : args.count option ≤ 1) (convert : CText → T → T) (default : T) :
    Yields
      (fun cl => GetPot.Reading name args taken requested cl ∧ GetPot.AtOption args option cl)
      (read convert default)
      (((search option args).bind List.head?).elim default fun text => convert text default)
      (GetPot.Reading name args (option :: taken)
        (requested ++ ((search option args).bind List.head?).toList)) := by
  rintro cl ⟨h, hat⟩
  obtain ⟨i, hi, hvalue, hreading⟩ := h.next hcommand.notMem_nil hat convert default
  have hrest : (search option args).bind List.head? = args[i + 1]? := by
    rw [search_of_getElem? honce hi, Option.bind_some, List.head?_drop]
  rw [hrest]
  exact ⟨_, by rw [read, ← hvalue], hreading⟩

/-- An option with a value gives what it gives without a cursor. -/
theorem yields_takeOptionalArgument {T : Type} {convert convert' : CText → T → T}
    (optText1 optText2 : CText) (hcommand : PlainCommand name args)
    (hopts : Fresh [optText1, optText2] taken) (honce : AtMostOnce [optText1, optText2] args)
    (hconvert : ∀ text ∈ args, ∀ t, convert text t = convert' text t)
    (lexicalCast : T → CText) (varname : T) (arguments : List CText) :
    Yields (GetPot.Reading name args taken requested)
      (takeOptionalArgument convert lexicalCast optText1 optText2 varname arguments)
      (readOptionalArgument convert' lexicalCast args optText1 optText2 varname arguments)
      (GetPot.Reading name args (optText1 :: optText2 :: taken)
        (requested ++ recordedValue args optText1 optText2)) := by
  rw [readOptionalArgument, recordedValue, search2_eq]
  cases hfind : [optText1, optText2].find? (· ∈ args) with
  | none =>
      have hnone : decide (∃ opt ∈ [optText1, optText2], opt ∈ args) = false := by
        simpa using hfind
      have hsearch : Yields (GetPot.Reading name args taken requested)
          (find [optText1, optText2]) false
          (GetPot.Reading name args taken
            (requested ++ GetPot.recorded args [optText1, optText2])) :=
        hnone ▸ yields_find hcommand hopts
      rw [Option.bind_none, Option.bind_none, Option.toList_none, List.append_nil]
      refine hsearch.bind ((yields_pure _ _).mono fun cl h => h.mono fun opt hopt => ?_)
      exact List.mem_cons_of_mem _ (List.mem_cons_of_mem _ hopt)
  | some opt =>
      have hopt : opt ∈ [optText1, optText2] := List.mem_of_find?_eq_some hfind
      have hargs : opt ∈ args := by simpa using List.find?_some hfind
      obtain ⟨rest, hrest⟩ := exists_search hargs
      have hvalue : ((search opt args).bind List.head?).elim varname
            (fun text => convert text varname) =
          rest.head?.elim varname fun text => convert' text varname := by
        rw [hrest, Option.bind_some]
        cases hhead : rest.head? with
        | none => rfl
        | some text =>
            exact hconvert text (mem_of_search hrest text (List.mem_of_mem_head? hhead)) varname
      rw [takeOptionalArgument]
      refine (yields_find_at hcommand hopts hfind).bind
        ((yields_read hcommand (honce opt hopt) convert varname).bind ?_)
      rw [hvalue, Option.bind_some, hrest, List.append_assoc]
      refine (yields_pure _ _).mono fun cl h => h.mono fun text htext => ?_
      rcases List.mem_cons.mp htext with rfl | htaken
      · exact List.mem_append_left taken hopt
      · exact List.mem_append_right [optText1, optText2] htaken

theorem yields_takeOptionalString (optText1 optText2 : CText)
    (hcommand : PlainCommand name args) (hopts : Fresh [optText1, optText2] taken)
    (honce : AtMostOnce [optText1, optText2] args) (varname : CText) (arguments : List CText) :
    Yields (GetPot.Reading name args taken requested)
      (takeOptionalString optText1 optText2 varname arguments)
      (readOptionalString args optText1 optText2 varname arguments)
      (GetPot.Reading name args (optText1 :: optText2 :: taken)
        (requested ++ recordedValue args optText1 optText2)) :=
  yields_takeOptionalArgument optText1 optText2 hcommand hopts honce
    (fun text htext _ => GetPot.cStr_of_notMem (hcommand.plain text htext).null) id varname
    arguments

theorem yields_readNominus (hcommand : PlainCommand name args) :
    Yields (GetPot.Reading name args taken requested) readNominus (nominusVector args)
      (GetPot.Reading name args taken (requested ++ nominusVector args)) := by
  intro cl h
  have hsame : args.filter GetPot.isNominus = nominusVector args := by
    refine List.filter_congr fun arg harg => ?_
    have harg' : arg ≠ [] := fun heq => hcommand.notMem_nil (heq ▸ harg)
    rw [GetPot.isNominus, decide_eq_true harg', Bool.true_and]
  rw [← hsame]
  exact h.nominusVector

theorem yields_readUnidentified (hcommand : PlainCommand name args) :
    Yields (GetPot.Reading name args taken requested) readUnidentified
      (args.filter fun arg => arg ∉ requested) (GetPot.Reading name args taken requested) := by
  intro cl h
  refine ⟨cl, ?_, h⟩
  have hsame : (args.filter fun arg => arg ≠ [] && arg ∉ requested) =
      args.filter fun arg => arg ∉ requested := by
    refine List.filter_congr fun arg harg => ?_
    have harg' : arg ≠ [] := fun heq => hcommand.notMem_nil (heq ▸ harg)
    rw [decide_eq_true harg', Bool.true_and]
  rw [readUnidentified, h.unidentifiedOptions, hsame]

/-- What has not been asked for. -/
theorem filter_requested (switches : List (List CText)) (valued : List (CText × CText))
    (h : ∀ arg, arg ∈ requested ↔ (arg ∈ args ∧ (GetPot.splitAssignment arg).isSome = true) ∨
      arg ∈ nominusVector args ∨ arg ∈ switches.flatMap (GetPot.recorded args) ∨
      arg ∈ valued.flatMap fun opt => recordedValue args opt.1 opt.2) :
    (args.filter fun arg => arg ∉ requested) = unsupported switches valued args := by
  refine List.filter_congr fun arg harg => ?_
  have hnominus : arg ∈ nominusVector args ↔ isMinus arg = false := by
    rw [nominusVector, List.mem_filter, and_iff_right harg, Bool.not_eq_true']
  rw [Bool.eq_iff_iff]
  simp only [decide_eq_true_eq, h, harg, true_and, hnominus, not_or, Bool.and_eq_true,
    Bool.not_eq_false, Option.not_isSome_iff_eq_none, Option.isNone_iff_eq_none]
  tauto

theorem isSome_search {option : CText} : (search option args).isSome = true ↔ option ∈ args := by
  rw [← not_iff_not, ← search_eq_none_iff, Option.not_isSome_iff_eq_none]

theorem isSome_search2 {optText1 optText2 : CText} :
    (search2 optText1 optText2 args).isSome = true ↔ optText1 ∈ args ∨ optText2 ∈ args := by
  rw [search2, Option.isSome_or, Bool.or_eq_true, isSome_search, isSome_search]

end Requests

end Grvy.Apps
