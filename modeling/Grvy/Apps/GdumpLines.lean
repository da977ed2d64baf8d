import Grvy.Apps.Gdump

/-!
The command lines of `gdump` that ask for a summary.

Switches, options with a value and the file come in any order. What a switch sets does not
depend on where it stands, and the values of the options are not mistaken for the file. A switch
that is given in both of its spellings is not supported in the short one: it is not searched for
when the long one has been found.
-/

namespace Grvy.Apps

open Grvy.Lib
open GetPot (isMinus)

/-! ### Command lines -/

inductive GdumpSwitch where
  | quiet
  | debug
  | summarizeOnly
  | withComment
  | withEnv
  | enableSubtimers
  deriving DecidableEq

def GdumpSwitch.longText : GdumpSwitch → CText
  | quiet => "--quiet".toList
  | debug => "--debug".toList
  | summarizeOnly => "--summarize-only".toList
  | withComment => "--with-comment".toList
  | withEnv => "--with-env".toList
  | enableSubtimers => "--enable-subtimers".toList

/-- There is none for `--debug`. -/
def GdumpSwitch.shortText : GdumpSwitch → CText
  | quiet => "-q".toList
  | debug => "--debug".toList
  | summarizeOnly => "-s".toList
  | withComment => "-c".toList
  | withEnv => "-e".toList
  | enableSubtimers => "-a".toList

def GdumpSwitch.text (long : Bool) (k : GdumpSwitch) : CText :=
  if long then k.longText else k.shortText

/-- The options with a value. -/
inductive GdumpValue where
  | delimiter
  | outputDir
  deriving DecidableEq

def GdumpValue.longText : GdumpValue → CText
  | delimiter => "--delimiter".toList
  | outputDir => "--output-dir".toList

def GdumpValue.shortText : GdumpValue → CText
  | delimiter => "-d".toList
  | outputDir => "-o".toList

def GdumpValue.text (long : Bool) (k : GdumpValue) : CText :=
  if long then k.longText else k.shortText

inductive GdumpItem where
  | switch (k : GdumpSwitch) (long : Bool)
  | valued (k : GdumpValue) (long : Bool) (value : CText)
  | file (path : CText)
  deriving DecidableEq

namespace GdumpItem

def option : GdumpItem → Option CText
  | switch k long => some (k.text long)
  | valued k long _ => some (k.text long)
  | file _ => none

def input : GdumpItem → Option CText
  | switch _ _ => none
  | valued _ _ value => some value
  | file path => some path

/-- The value for an option. -/
def valueFor (k : GdumpValue) : GdumpItem → Option CText
  | valued k' _ value => if k' = k then some value else none
  | _ => none

def path : GdumpItem → Option CText
  | file path => some path
  | _ => none

def args (i : GdumpItem) : List CText := i.option.toList ++ i.input.toList

end GdumpItem

def lineArgs (items : List GdumpItem) : List CText := items.flatMap GdumpItem.args

def hasSwitch (items : List GdumpItem) (k : GdumpSwitch) : Bool :=
  items.any fun i => i = .switch k true || i = .switch k false

/-- What the switches of a line set. -/
def lineSwitches (items : List GdumpItem) : Switches where
  options :=
    { outputStdout := !hasSwitch items .quiet
      outputTotaltimerRaw := true
      outputSubtimerRaw := hasSwitch items .enableSubtimers
      dumpFiles := !hasSwitch items .summarizeOnly
      outputComments := hasSwitch items .withComment
      outputPrintenv := hasSwitch items .withEnv }
  logLevel := if hasSwitch items .debug then .debug else .info

/-- The short spelling of a switch, if the line has the long one too. -/
def spelledAgain (items : List GdumpItem) : GdumpItem → Option CText
  | .switch k false => if k ≠ .debug ∧ .switch k true ∈ items then some (k.text false) else none
  | _ => none

/-- The short spellings of the switches that are given in both spellings. -/
def spelledTwice (items : List GdumpItem) : List CText := items.filterMap (spelledAgain items)

/-- A line with one file. An option with a value is given once at most, and the value is not
the file. -/
structure IsGdumpLine (items : List GdumpItem) (file : CText) : Prop where
  inputs : ∀ i ∈ items, ∀ text ∈ i.input, IsInput text
  path : items.filterMap GdumpItem.path = [file]
  once : ∀ k, (items.filterMap (GdumpItem.valueFor k)).length ≤ 1
  apart : ∀ k, file ∉ items.filterMap (GdumpItem.valueFor k)

/-! ### The arguments of a line -/

@[simp] theorem GdumpSwitch.isMinus_text (k : GdumpSwitch) (long : Bool) :
    isMinus (k.text long) = true := by
  cases k <;> cases long <;> decide

@[simp] theorem GdumpValue.isMinus_text (k : GdumpValue) (long : Bool) :
    isMinus (k.text long) = true := by
  cases k <;> cases long <;> decide

theorem GdumpItem.isMinus_option {i : GdumpItem} {text : CText} (h : text ∈ i.option) :
    isMinus text = true := by
  cases i with
  | switch k long => exact Option.some.inj h ▸ k.isMinus_text long
  | valued k long value => exact Option.some.inj h ▸ k.isMinus_text long
  | file path => cases h

section Line

variable {items : List GdumpItem} {text : CText}

theorem mem_lineArgs (hinputs : ∀ i ∈ items, ∀ text ∈ i.input, IsInput text)
    (hminus : isMinus text = true) : text ∈ lineArgs items ↔ ∃ i ∈ items, i.option = some text := by
  rw [lineArgs, List.mem_flatMap]
  refine exists_congr fun i => and_congr_right fun hi => ?_
  rw [GdumpItem.args, List.mem_append, Option.mem_toList, Option.mem_toList, or_iff_left]
  intro hinput
  have hnominus := (hinputs i hi text hinput).nominus
  rw [hminus] at hnominus
  cases hnominus

theorem nominusVector_lineArgs (hinputs : ∀ i ∈ items, ∀ text ∈ i.input, IsInput text) :
    nominusVector (lineArgs items) = items.filterMap GdumpItem.input := by
  induction items with
  | nil => rfl
  | cons i items ih =>
      have hrest := ih fun j hj => hinputs j (List.mem_cons_of_mem i hj)
      have hoption : (i.option.toList.filter fun arg => !isMinus arg) = [] := by
        refine List.filter_eq_nil_iff.mpr fun text htext => ?_
        rw [GdumpItem.isMinus_option (Option.mem_toList.mp htext)]
        exact Bool.false_ne_true
      have hinput : (i.input.toList.filter fun arg => !isMinus arg) = i.input.toList := by
        refine List.filter_eq_self.mpr fun text htext => ?_
        rw [(hinputs i List.mem_cons_self text (Option.mem_toList.mp htext)).nominus]
        rfl
      rw [nominusVector] at hrest
      rw [nominusVector, lineArgs, List.flatMap_cons, GdumpItem.args, List.filter_append,
        List.filter_append, hoption, hinput, List.nil_append, ← lineArgs, hrest]
      cases hi : i.input with
      | none => rw [List.filterMap_cons_none hi]; rfl
      | some text => rw [List.filterMap_cons_some hi]; rfl

theorem GdumpSwitch.text_ne (k : GdumpSwitch) (k' : GdumpValue) (long long' : Bool) :
    k.text long ≠ k'.text long' := by
  cases k <;> cases k' <;> cases long <;> cases long' <;> decide

theorem GdumpValue.text_inj {k k' : GdumpValue} {long long' : Bool}
    (h : k.text long = k'.text long') : k = k' ∧ long = long' := by
  revert h
  cases k <;> cases k' <;> cases long <;> cases long' <;> decide

/-- An option with a value comes from its own items. -/
theorem GdumpItem.option_eq_text_iff {i : GdumpItem} {k : GdumpValue} {long : Bool} :
    i.option = some (k.text long) ↔ ∃ value, i = .valued k long value := by
  constructor
  · intro h
    cases i with
    | switch k' long' => exact absurd (Option.some.inj h) (k'.text_ne k long' long)
    | valued k' long' value =>
        obtain ⟨rfl, rfl⟩ := GdumpValue.text_inj (Option.some.inj h)
        exact ⟨value, rfl⟩
    | file path => cases h
  · rintro ⟨value, rfl⟩
    rfl

theorem GdumpItem.valueFor_eq_some_iff {i : GdumpItem} {k : GdumpValue} {value : CText} :
    i.valueFor k = some value ↔ ∃ long, i = .valued k long value := by
  cases i with
  | valued k' long' value' =>
      rw [valueFor]
      by_cases hk : k' = k
      · simp [hk, eq_comm]
      · simp [hk]
  | switch k' long' => simp [valueFor]
  | file path => simp [valueFor]

/-- No item of a line is one for an option. -/
def Without (k : GdumpValue) (items : List GdumpItem) : Prop :=
  ∀ i ∈ items, i.valueFor k = none

theorem Without.text_notMem {k : GdumpValue} (h : Without k items)
    (hinputs : ∀ i ∈ items, ∀ text ∈ i.input, IsInput text) (long : Bool) :
    k.text long ∉ lineArgs items := by
  rw [mem_lineArgs hinputs (k.isMinus_text long)]
  rintro ⟨i, hi, hoption⟩
  obtain ⟨value, rfl⟩ := GdumpItem.option_eq_text_iff.mp hoption
  have hnone := h _ hi
  rw [GdumpItem.valueFor, if_pos rfl] at hnone
  cases hnone

/-- The only item of an option with a value. -/
theorem valued_split {k : GdumpValue} {value : CText}
    (h : items.filterMap (GdumpItem.valueFor k) = [value]) :
    ∃ pre long post, items = pre ++ .valued k long value :: post ∧ Without k pre ∧
      Without k post := by
  obtain ⟨pre, i, post, rfl, hpre, hi, hpost⟩ := List.filterMap_eq_cons_iff.mp h
  obtain ⟨long, rfl⟩ := GdumpItem.valueFor_eq_some_iff.mp hi
  exact ⟨pre, long, post, rfl, hpre, List.filterMap_eq_nil_iff.mp hpost⟩

/-- Where an option is given in its short spelling, the long one is not there. -/
theorem longText_notMem {k : GdumpValue} {pre post : List GdumpItem} {value : CText}
    (hinputs : ∀ i ∈ pre ++ .valued k false value :: post, ∀ text ∈ i.input, IsInput text)
    (hpre : Without k pre) (hpost : Without k post) :
    k.text true ∉ lineArgs (pre ++ .valued k false value :: post) := by
  rw [mem_lineArgs hinputs (k.isMinus_text true)]
  rintro ⟨i, hi, hoption⟩
  obtain ⟨value', rfl⟩ := GdumpItem.option_eq_text_iff.mp hoption
  have hsome : GdumpItem.valueFor k (.valued k true value') = some value' := if_pos rfl
  rcases List.mem_append.mp hi with hi | hi
  · rw [hpre _ hi] at hsome
    cases hsome
  rcases List.mem_cons.mp hi with heq | hi
  · cases heq
  · rw [hpost _ hi] at hsome
    cases hsome

/-- What follows the only item of an option with a value. -/
theorem search2_split {k : GdumpValue} {pre post : List GdumpItem} {long : Bool} {value : CText}
    (hinputs : ∀ i ∈ pre ++ .valued k long value :: post, ∀ text ∈ i.input, IsInput text)
    (hpre : Without k pre) (hpost : Without k post) :
    search2 (k.text true) (k.text false) (lineArgs (pre ++ .valued k long value :: post)) =
      some (value :: lineArgs post) := by
  have hpre' : ∀ i ∈ pre, ∀ text ∈ i.input, IsInput text := fun i hi =>
    hinputs i (List.mem_append_left _ hi)
  have hargs : lineArgs (pre ++ .valued k long value :: post) =
      lineArgs pre ++ k.text long :: value :: lineArgs post := by
    rw [lineArgs, List.flatMap_append, List.flatMap_cons]
    rfl
  have hfound : search (k.text long) (lineArgs (pre ++ .valued k long value :: post)) =
      some (value :: lineArgs post) := by
    rw [hargs, search_append_of_notMem (hpre.text_notMem hpre' long), search, if_pos rfl]
  cases long with
  | true => rw [search2, hfound, Option.some_or]
  | false =>
      have hnone := search_eq_none_iff.mpr (longText_notMem hinputs hpre hpost)
      rw [search2, hnone, Option.none_or, hfound]

/-- An option that is given once at most is found with its value, or not at all. -/
theorem search2_cases {k : GdumpValue} (hinputs : ∀ i ∈ items, ∀ text ∈ i.input, IsInput text)
    (honce : (items.filterMap (GdumpItem.valueFor k)).length ≤ 1) :
    (items.filterMap (GdumpItem.valueFor k) = [] ∧
        search2 (k.text true) (k.text false) (lineArgs items) = none) ∨
      ∃ value rest, items.filterMap (GdumpItem.valueFor k) = [value] ∧
        search2 (k.text true) (k.text false) (lineArgs items) = some (value :: rest) := by
  cases hvalues : items.filterMap (GdumpItem.valueFor k) with
  | nil =>
      have hwithout : Without k items := List.filterMap_eq_nil_iff.mp hvalues
      left
      rw [search2, search_eq_none_iff.mpr (hwithout.text_notMem hinputs true),
        search_eq_none_iff.mpr (hwithout.text_notMem hinputs false)]
      exact ⟨rfl, rfl⟩
  | cons value rest =>
      rw [hvalues, List.length_cons] at honce
      obtain rfl : rest = [] := List.length_eq_zero_iff.mp (by omega)
      obtain ⟨pre, long, post, rfl, hpre, hpost⟩ := valued_split hvalues
      exact .inr ⟨value, _, rfl, search2_split hinputs hpre hpost⟩

/-- An option that is given once gives its value, and one that is not given its default. -/
theorem readOptionalString_lineArgs {k : GdumpValue}
    (hinputs : ∀ i ∈ items, ∀ text ∈ i.input, IsInput text)
    (honce : (items.filterMap (GdumpItem.valueFor k)).length ≤ 1) (varname : CText)
    (arguments : List CText) :
    readOptionalString (lineArgs items) (k.text true) (k.text false) varname arguments =
      ((items.filterMap (GdumpItem.valueFor k)).headD varname,
        eraseAll (items.filterMap (GdumpItem.valueFor k)) arguments) := by
  rw [readOptionalString, readOptionalArgument]
  rcases search2_cases hinputs honce with ⟨hvalues, hsearch⟩ | ⟨value, rest, hvalues, hsearch⟩
  · rw [hvalues, hsearch]
    rfl
  · rw [hvalues, hsearch]
    rfl

theorem count_lineArgs (hinputs : ∀ i ∈ items, ∀ text ∈ i.input, IsInput text)
    (hminus : isMinus text = true) :
    (lineArgs items).count text = items.countP fun i => i.option = some text := by
  induction items with
  | nil => rfl
  | cons i items ih =>
      have hrest := ih fun j hj => hinputs j (List.mem_cons_of_mem i hj)
      have hinput : text ∉ i.input.toList := by
        intro hmem
        have hnominus := (hinputs i List.mem_cons_self text (Option.mem_toList.mp hmem)).nominus
        rw [hminus] at hnominus
        cases hnominus
      rw [lineArgs] at hrest
      rw [lineArgs, List.flatMap_cons, List.count_append, hrest, GdumpItem.args, List.count_append,
        List.count_eq_zero_of_not_mem hinput, List.countP_cons]
      cases hoption : i.option with
      | none => simp
      | some text' => simp [List.count_singleton, Nat.add_comm]

theorem atMostOnce_lineArgs {k : GdumpValue}
    (hinputs : ∀ i ∈ items, ∀ text ∈ i.input, IsInput text)
    (honce : (items.filterMap (GdumpItem.valueFor k)).length ≤ 1) :
    AtMostOnce [k.text true, k.text false] (lineArgs items) := by
  have hcount : ∀ long, (lineArgs items).count (k.text long) ≤ 1 := by
    intro long
    rw [List.length_filterMap_eq_countP] at honce
    rw [count_lineArgs hinputs (k.isMinus_text long)]
    refine le_trans (List.countP_mono_left fun i _ hi => ?_) honce
    obtain ⟨value, rfl⟩ := GdumpItem.option_eq_text_iff.mp (of_decide_eq_true hi)
    rw [GdumpItem.valueFor, if_pos rfl]
    rfl
  intro opt hopt
  rcases List.mem_pair.mp hopt with rfl | rfl
  · exact hcount true
  · exact hcount false

/-! ### Switches -/

theorem GdumpSwitch.text_eq_iff {k k' : GdumpSwitch} {long long' : Bool} :
    k.text long = k'.text long' ↔ k = k' ∧ (k = .debug ∨ long = long') := by
  cases k <;> cases k' <;> cases long <;> cases long' <;> decide

def GdumpSwitch.all : List GdumpSwitch :=
  [quiet, debug, summarizeOnly, withComment, withEnv, enableSubtimers]

/-- The texts that are searched for together. -/
def GdumpSwitch.texts (k : GdumpSwitch) : List CText :=
  if k = debug then [k.text true] else [k.text true, k.text false]

theorem GdumpSwitch.mem_texts {k : GdumpSwitch} : text ∈ k.texts ↔ ∃ long, text = k.text long := by
  rw [Bool.exists_bool, texts]
  split
  · next hdebug =>
      have hsame : k.text false = k.text true := text_eq_iff.mpr ⟨rfl, .inl hdebug⟩
      rw [List.mem_singleton, hsame, or_self]
  · rw [List.mem_pair, or_comm]

theorem GdumpSwitch.eq_of_text_mem {k k' : GdumpSwitch} {long : Bool}
    (h : k.text long ∈ k'.texts) : k = k' := by
  obtain ⟨long', heq⟩ := mem_texts.mp h
  exact (text_eq_iff.mp heq).1

theorem GdumpItem.option_eq_switch_iff {i : GdumpItem} {k : GdumpSwitch} {long : Bool} :
    i.option = some (k.text long) ↔ ∃ long', i = .switch k long' ∧ (k = .debug ∨ long' = long) := by
  constructor
  · intro h
    cases i with
    | switch k' long' =>
        obtain ⟨rfl, hlong⟩ := GdumpSwitch.text_eq_iff.mp (Option.some.inj h)
        exact ⟨long', rfl, hlong⟩
    | valued k' long' value => exact absurd (Option.some.inj h).symm (k.text_ne k' long long')
    | file path => cases h
  · rintro ⟨long', rfl, hlong⟩
    exact congrArg some (GdumpSwitch.text_eq_iff.mpr ⟨rfl, hlong⟩)

theorem text_mem_lineArgs (hinputs : ∀ i ∈ items, ∀ text ∈ i.input, IsInput text)
    (k : GdumpSwitch) (long : Bool) : k.text long ∈ lineArgs items ↔
      ∃ long', .switch k long' ∈ items ∧ (k = .debug ∨ long' = long) := by
  rw [mem_lineArgs hinputs (k.isMinus_text long)]
  constructor
  · rintro ⟨i, hi, hoption⟩
    obtain ⟨long', rfl, hlong⟩ := GdumpItem.option_eq_switch_iff.mp hoption
    exact ⟨long', hi, hlong⟩
  · rintro ⟨long', hi, hlong⟩
    exact ⟨_, hi, GdumpItem.option_eq_switch_iff.mpr ⟨long', rfl, hlong⟩⟩

theorem hasSwitch_iff {k : GdumpSwitch} :
    hasSwitch items k = true ↔ ∃ long, .switch k long ∈ items := by
  rw [hasSwitch, List.any_eq_true, Bool.exists_bool]
  constructor
  · rintro ⟨i, hi, h⟩
    rcases Bool.or_eq_true_iff.mp h with h | h
    · exact .inr (of_decide_eq_true h ▸ hi)
    · exact .inl (of_decide_eq_true h ▸ hi)
  · rintro (h | h)
    · exact ⟨_, h, by simp⟩
    · exact ⟨_, h, by simp⟩

/-- A switch is found in either spelling. -/
theorem switched_lineArgs (hinputs : ∀ i ∈ items, ∀ text ∈ i.input, IsInput text)
    (k : GdumpSwitch) (set : Switches → Switches) (s : Switches) :
    switched (lineArgs items) k.texts set s = if hasSwitch items k = true then set s else s := by
  rw [switched]
  refine if_congr ?_ rfl rfl
  rw [hasSwitch_iff]
  constructor
  · rintro ⟨opt, hopt, hmem⟩
    obtain ⟨long, rfl⟩ := GdumpSwitch.mem_texts.mp hopt
    obtain ⟨long', hi, -⟩ := (text_mem_lineArgs hinputs k long).mp hmem
    exact ⟨long', hi⟩
  · rintro ⟨long, hi⟩
    exact ⟨k.text long, GdumpSwitch.mem_texts.mpr ⟨long, rfl⟩,
      (text_mem_lineArgs hinputs k long).mpr ⟨long, hi, .inr rfl⟩⟩

/-- Every switch sets its own options, wherever it stands. -/
theorem gdumpSwitched_lineArgs (hinputs : ∀ i ∈ items, ∀ text ∈ i.input, IsInput text) :
    gdumpSwitched (lineArgs items) = lineSwitches items := by
  have htexts : gdumpSwitched (lineArgs items) =
      let s := switched (lineArgs items) GdumpSwitch.quiet.texts
        (setOption "output_stdout" false) .default
      let s := switched (lineArgs items) GdumpSwitch.debug.texts (setLogLevel .debug) s
      let s := switched (lineArgs items) GdumpSwitch.summarizeOnly.texts
        (setOption "dump_files" false) s
      let s := switched (lineArgs items) GdumpSwitch.withComment.texts
        (setOption "output_comments" true) s
      let s := switched (lineArgs items) GdumpSwitch.withEnv.texts
        (setOption "output_printenv" true) s
      switched (lineArgs items) GdumpSwitch.enableSubtimers.texts enableSubtimers s := rfl
  rw [htexts, lineSwitches]
  simp only [switched_lineArgs hinputs]
  cases hasSwitch items .quiet <;> cases hasSwitch items .debug <;>
    cases hasSwitch items .summarizeOnly <;> cases hasSwitch items .withComment <;>
    cases hasSwitch items .withEnv <;> cases hasSwitch items .enableSubtimers <;> rfl

/-! ### What is not supported -/

/-- A long spelling is always searched for, and a short one if the long one is not there. -/
theorem text_mem_switches (args : List CText) (k : GdumpSwitch) (long : Bool) :
    k.text long ∈ gdumpSwitches.flatMap (GetPot.recorded args) ↔
      k = .debug ∨ long = true ∨ k.text true ∉ args := by
  have hall : gdumpSwitches = ["--version".toList] :: ["--help".toList, "-h".toList] ::
      GdumpSwitch.all.map GdumpSwitch.texts := rfl
  have hother : k.text long ∉ ["--version".toList] ∧
      k.text long ∉ ["--help".toList, "-h".toList] := by
    cases k <;> cases long <;> decide
  have hmem : k ∈ GdumpSwitch.all := by cases k <;> decide
  have hrecorded : k.text long ∈ gdumpSwitches.flatMap (GetPot.recorded args) ↔
      k.text long ∈ GetPot.recorded args k.texts := by
    rw [hall, List.flatMap_cons, List.flatMap_cons, List.mem_append, List.mem_append,
      or_iff_right fun h => hother.1 (mem_of_mem_recorded h),
      or_iff_right fun h => hother.2 (mem_of_mem_recorded h), List.flatMap_map, List.mem_flatMap]
    constructor
    · rintro ⟨k', -, h⟩
      obtain rfl := GdumpSwitch.eq_of_text_mem (mem_of_mem_recorded h)
      exact h
    · intro h
      exact ⟨k, hmem, h⟩
  rw [hrecorded, GdumpSwitch.texts]
  by_cases hdebug : k = .debug
  · rw [if_pos hdebug, mem_recorded]
    simp [hdebug, GdumpSwitch.text_eq_iff]
  · rw [if_neg hdebug, mem_recorded, List.mem_singleton, GdumpSwitch.text_eq_iff,
      GdumpSwitch.text_eq_iff]
    cases long <;> simp [hdebug]

/-- What an option with a value records besides its value. -/
theorem mem_recordedValue {k : GdumpValue}
    (hinputs : ∀ i ∈ items, ∀ text ∈ i.input, IsInput text)
    (honce : (items.filterMap (GdumpItem.valueFor k)).length ≤ 1) (hminus : isMinus text = true) :
    text ∈ recordedValue (lineArgs items) (k.text true) (k.text false) ↔
      text = k.text true ∨ text = k.text false ∧ k.text true ∉ lineArgs items := by
  rw [recordedValue, List.mem_append, mem_recorded, List.mem_singleton, or_iff_left]
  rcases search2_cases hinputs honce with ⟨-, hsearch⟩ | ⟨value, rest, hvalues, hsearch⟩
  · rw [hsearch]
    exact List.not_mem_nil
  · rw [hsearch, Option.bind_some, List.head?_cons, Option.toList_some, List.mem_singleton]
    rintro rfl
    have hmem : text ∈ items.filterMap (GdumpItem.valueFor k) := hvalues ▸ List.mem_singleton_self _
    obtain ⟨i, hi, hvalue⟩ := List.mem_filterMap.mp hmem
    obtain ⟨long, rfl⟩ := GdumpItem.valueFor_eq_some_iff.mp hvalue
    rw [(hinputs _ hi text rfl).nominus] at hminus
    cases hminus

theorem gdumpValued_eq :
    gdumpValued = [(GdumpValue.delimiter.text true, GdumpValue.delimiter.text false),
      (GdumpValue.outputDir.text true, GdumpValue.outputDir.text false)] := rfl

theorem GdumpValue.mem_all (k : GdumpValue) : (k.text true, k.text false) ∈ gdumpValued := by
  cases k <;> decide

/-- An option with a value is supported. -/
theorem valued_recorded {k : GdumpValue} {long : Bool} {value : CText}
    (hinputs : ∀ i ∈ items, ∀ text ∈ i.input, IsInput text)
    (honce : (items.filterMap (GdumpItem.valueFor k)).length ≤ 1)
    (hi : .valued k long value ∈ items) :
    k.text long ∈ gdumpValued.flatMap fun opt => recordedValue (lineArgs items) opt.1 opt.2 := by
  refine List.mem_flatMap.mpr ⟨_, k.mem_all, ?_⟩
  rw [mem_recordedValue hinputs honce (k.isMinus_text long)]
  cases long with
  | true => exact .inl rfl
  | false =>
      right
      refine ⟨rfl, ?_⟩
      have hmem : value ∈ items.filterMap (GdumpItem.valueFor k) :=
        List.mem_filterMap.mpr ⟨_, hi, if_pos rfl⟩
      obtain ⟨value', hvalues⟩ : ∃ value', items.filterMap (GdumpItem.valueFor k) = [value'] :=
        List.length_eq_one_iff.mp (by have := List.length_pos_of_mem hmem; omega)
      obtain ⟨pre, long, post, rfl, hpre, hpost⟩ := valued_split hvalues
      have hlong : long = false := by
        have hsome : GdumpItem.valueFor k (.valued k false value) = some value := if_pos rfl
        rcases List.mem_append.mp hi with hi | hi
        · rw [hpre _ hi] at hsome
          cases hsome
        rcases List.mem_cons.mp hi with heq | hi
        · cases heq
          rfl
        · rw [hpost _ hi] at hsome
          cases hsome
      subst hlong
      exact longText_notMem hinputs hpre hpost

/-- A switch is not recorded with the options that have a value. -/
theorem switch_not_recorded (hinputs : ∀ i ∈ items, ∀ text ∈ i.input, IsInput text)
    (honce : ∀ k, (items.filterMap (GdumpItem.valueFor k)).length ≤ 1) (k : GdumpSwitch)
    (long : Bool) :
    k.text long ∉ gdumpValued.flatMap fun opt => recordedValue (lineArgs items) opt.1 opt.2 := by
  have hnot : ∀ k' : GdumpValue,
      k.text long ∉ recordedValue (lineArgs items) (k'.text true) (k'.text false) := by
    intro k'
    rw [mem_recordedValue hinputs (honce k') (k.isMinus_text long)]
    rintro (h | ⟨h, -⟩)
    · exact k.text_ne k' _ _ h
    · exact k.text_ne k' _ _ h
  rw [gdumpValued_eq, List.flatMap_cons, List.flatMap_cons, List.flatMap_nil, List.append_nil,
    List.mem_append, not_or]
  exact ⟨hnot .delimiter, hnot .outputDir⟩

/-- What is not supported of a line are the short spellings of the switches that are given in
both. -/
theorem unsupported_lineArgs (hinputs : ∀ i ∈ items, ∀ text ∈ i.input, IsInput text)
    (honce : ∀ k, (items.filterMap (GdumpItem.valueFor k)).length ≤ 1) :
    unsupported gdumpSwitches gdumpValued (lineArgs items) = spelledTwice items := by
  have hinput : ∀ i ∈ items, ∀ text ∈ i.input, isMinus text = false := fun i hi text htext =>
    (hinputs i hi text htext).nominus
  rw [unsupported, lineArgs, List.filter_flatMap, spelledTwice, List.filterMap_eq_flatMap_toList]
  refine List.flatMap_congr fun i hi => ?_
  rw [← lineArgs]
  cases i with
  | switch k long =>
      have hnone : (GetPot.splitAssignment (k.text long)).isNone = true := by
        cases k <;> cases long <;> decide
      have hvalued := switch_not_recorded hinputs honce k long
      show List.filter _ [k.text long] = _
      rw [List.filter_singleton, k.isMinus_text, hnone, decide_eq_true hvalued, Bool.and_true,
        Bool.true_and, Bool.true_and]
      have hlong : k ≠ .debug → (k.text true ∈ lineArgs items ↔ .switch k true ∈ items) := by
        intro hdebug
        rw [text_mem_lineArgs hinputs]
        simp [hdebug]
      have hmem := text_mem_switches (lineArgs items) k long
      cases long with
      | true => simp [spelledAgain, hmem]
      | false =>
          rw [spelledAgain]
          by_cases hdebug : k = .debug
          · rw [decide_eq_false fun h => h (hmem.mpr (.inl hdebug)), if_neg fun h => h.1 hdebug]
            rfl
          · rw [hlong hdebug] at hmem
            by_cases hagain : GdumpItem.switch k true ∈ items
            · simp [hmem, hdebug, hagain]
            · simp [hmem, hdebug, hagain]
  | valued k long value =>
      have hrecorded := valued_recorded hinputs (honce k) hi
      show List.filter _ [k.text long, value] = []
      refine List.filter_eq_nil_iff.mpr fun text htext => ?_
      rcases List.mem_pair.mp htext with rfl | rfl
      · simp [hrecorded]
      · simp [hinput _ hi text rfl]
  | file path =>
      show List.filter _ [path] = []
      rw [List.filter_singleton, hinput _ hi path rfl]
      rfl

/-! ### What is left of the inputs -/

/-- Apart from the file the inputs are the values of the options. -/
theorem perm_inputs (hpath : ∀ i ∈ items, i.path = none) :
    (items.filterMap GdumpItem.input).Perm
      (items.filterMap (GdumpItem.valueFor .delimiter) ++
        items.filterMap (GdumpItem.valueFor .outputDir)) := by
  induction items with
  | nil => exact .nil
  | cons i items ih =>
      have hrest := ih fun j hj => hpath j (List.mem_cons_of_mem i hj)
      cases i with
      | switch k long => exact hrest
      | valued k long value =>
          cases k with
          | delimiter => exact hrest.cons value
          | outputDir => exact (hrest.cons value).trans List.perm_middle.symm
      | file path => cases hpath _ List.mem_cons_self

/-- The values of the options are erased, and the file is left. -/
theorem eraseAll_inputs {file : CText} (h : IsGdumpLine items file) :
    eraseAll (items.filterMap (GdumpItem.valueFor .outputDir))
      (eraseAll (items.filterMap (GdumpItem.valueFor .delimiter))
        (items.filterMap GdumpItem.input)) = [file] := by
  obtain ⟨pre, i, post, rfl, hpre, hi, hpost⟩ := List.filterMap_eq_cons_iff.mp h.path
  have hpost' : ∀ i ∈ post, i.path = none := List.filterMap_eq_nil_iff.mp hpost
  obtain rfl : i = .file file := by
    cases i with
    | file path => rw [Option.some.inj hi]
    | switch k long => cases hi
    | valued k long value => cases hi
  have hinputs : (pre ++ .file file :: post).filterMap GdumpItem.input =
      pre.filterMap GdumpItem.input ++ file :: post.filterMap GdumpItem.input := by
    rw [List.filterMap_append]
    rfl
  have hvalues : ∀ k, (pre ++ .file file :: post).filterMap (GdumpItem.valueFor k) =
      pre.filterMap (GdumpItem.valueFor k) ++ post.filterMap (GdumpItem.valueFor k) := by
    intro k
    rw [List.filterMap_append]
    rfl
  have hfile : file ∉ (pre ++ .file file :: post).filterMap (GdumpItem.valueFor .delimiter) ++
      (pre ++ .file file :: post).filterMap (GdumpItem.valueFor .outputDir) := by
    rw [List.mem_append, not_or]
    exact ⟨h.apart .delimiter, h.apart .outputDir⟩
  rw [← eraseAll_append, hinputs, eraseAll_split hfile, eraseAll_eq_nil_of_subperm,
    eraseAll_eq_nil_of_subperm]
  · rfl
  · rw [hvalues, hvalues]
    exact (perm_inputs hpost').subperm.trans
      ((List.sublist_append_right _ _).append (List.sublist_append_right _ _)).subperm
  · rw [hvalues, hvalues]
    exact (perm_inputs hpre).subperm.trans
      ((List.sublist_append_left _ _).append (List.sublist_append_left _ _)).subperm

/-! ### The outcome -/

theorem notMem_lineArgs_of_reserved
    (hinputs : ∀ i ∈ items, ∀ text ∈ i.input, IsInput text)
    (htext : text ∈ ["--version".toList, "--help".toList, "-h".toList]) :
    text ∉ lineArgs items := by
  have hminus : isMinus text = true := by
    revert text
    decide
  rw [mem_lineArgs hinputs hminus]
  rintro ⟨i, hi, hoption⟩
  cases i with
  | switch k long =>
      obtain rfl := Option.some.inj hoption
      revert htext
      cases k <;> cases long <;> decide
  | valued k long value =>
      obtain rfl := Option.some.inj hoption
      revert htext
      cases k <;> cases long <;> decide
  | file path => cases hoption

/-- A line is summarized as its items say in any order, unless a switch is given in both
spellings. -/
theorem gdumpOutcome_lineArgs {file : CText} (h : IsGdumpLine items file) :
    gdumpOutcome (lineArgs items) =
      if spelledTwice items = [] then
        .summarize (lineSwitches items) file
          ((items.filterMap (GdumpItem.valueFor .delimiter)).headD "#".toList)
          ((items.filterMap (GdumpItem.valueFor .outputDir)).headD "./gdata".toList)
      else .unsupported (spelledTwice items) := by
  have hreserved : ∀ text ∈ ["--version".toList, "--help".toList, "-h".toList],
      text ∉ lineArgs items := fun _ => notMem_lineArgs_of_reserved h.inputs
  have hdelimiter : readOptionalString (lineArgs items) "--delimiter".toList "-d".toList
      "#".toList (items.filterMap GdumpItem.input) =
      ((items.filterMap (GdumpItem.valueFor .delimiter)).headD "#".toList,
        eraseAll (items.filterMap (GdumpItem.valueFor .delimiter))
          (items.filterMap GdumpItem.input)) :=
    readOptionalString_lineArgs h.inputs (h.once .delimiter) _ _
  have houtputDir : readOptionalString (lineArgs items) "--output-dir".toList "-o".toList
      "./gdata".toList (eraseAll (items.filterMap (GdumpItem.valueFor .delimiter))
        (items.filterMap GdumpItem.input)) =
      ((items.filterMap (GdumpItem.valueFor .outputDir)).headD "./gdata".toList, [file]) := by
    rw [← eraseAll_inputs h]
    exact readOptionalString_lineArgs h.inputs (h.once .outputDir) _ _
  rw [gdumpOutcome, if_neg (hreserved _ (by decide)),
    if_neg (not_or.mpr ⟨hreserved _ (by decide), hreserved _ (by decide)⟩),
    nominusVector_lineArgs h.inputs, hdelimiter]
  dsimp only
  rw [houtputDir, unsupported_lineArgs h.inputs h.once, gdumpSwitched_lineArgs h.inputs]
  by_cases htwice : spelledTwice items = []
  · rw [if_pos htwice]
    exact if_neg (not_not.mpr htwice)
  · rw [if_neg htwice]
    exact if_pos htwice

theorem plainCommand_lineArgs {name : CText} (hname : isMinus name = false)
    (hinputs : ∀ i ∈ items, ∀ text ∈ i.input, IsInput text) :
    PlainCommand name (lineArgs items) := by
  have hoption : ∀ i ∈ items, ∀ text ∈ i.option, GetPot.IsPlainArgument text ∧ text ≠ [] := by
    intro i hi text htext
    cases i with
    | switch k long =>
        obtain rfl := Option.some.inj htext
        cases k <;> cases long <;> decide
    | valued k long value =>
        obtain rfl := Option.some.inj htext
        cases k <;> cases long <;> decide
    | file path => cases htext
  have hall : ∀ text ∈ lineArgs items, GetPot.IsPlainArgument text ∧ text ≠ [] := by
    intro text htext
    obtain ⟨i, hi, hmem⟩ := List.mem_flatMap.mp htext
    rcases List.mem_append.mp hmem with hmem | hmem
    · exact hoption i hi text (Option.mem_toList.mp hmem)
    · have hinput := hinputs i hi text (Option.mem_toList.mp hmem)
      exact ⟨hinput.plain, hinput.ne_nil⟩
  exact
    { plain := fun text htext => (hall text htext).1
      notMem_nil := fun hmem => (hall [] hmem).2 rfl
      name := hname }

/-- **A command line of `gdump`.** A program of any name without a minus summarizes its file
as the items of the line say, in whatever order they come. -/
theorem requestGdump_lineArgs (d : GetPot.Doubles) {name file : CText}
    (hname : isMinus name = false) (h : IsGdumpLine items file) :
    ∃ o, Settles (fun n => GetPot.construct d n name (lineArgs items)) o ∧
      (requestGdump (GetPot.CommandLine.ofObject o)).map Prod.fst = some
        (if spelledTwice items = [] then
          .summarize (lineSwitches items) file
            ((items.filterMap (GdumpItem.valueFor .delimiter)).headD "#".toList)
            ((items.filterMap (GdumpItem.valueFor .outputDir)).headD "./gdata".toList)
        else .unsupported (spelledTwice items)) := by
  have honce : ∀ long short, (long, short) ∈ gdumpValued →
      AtMostOnce [long, short] (lineArgs items) := by
    intro long short hmem
    rw [gdumpValued_eq] at hmem
    rcases List.mem_pair.mp hmem with heq | heq
    · obtain ⟨rfl, rfl⟩ := Prod.mk.inj heq
      exact atMostOnce_lineArgs h.inputs (h.once .delimiter)
    · obtain ⟨rfl, rfl⟩ := Prod.mk.inj heq
      exact atMostOnce_lineArgs h.inputs (h.once .outputDir)
  obtain ⟨o, hsettles, hrun⟩ :=
    requestGdump_construct d (plainCommand_lineArgs hname h.inputs) honce
  refine ⟨o, hsettles, ?_⟩
  rw [hrun, gdumpOutcome_lineArgs h]

end Line

/-- Options on both sides of the file. -/
theorem file_between :
    ∃ o, Settles (fun n => GetPot.construct GetPot.wholeDoubles n "gdump".toList
        (lineArgs [.valued .outputDir true "dir".toList, .switch .quiet false,
          .file "file".toList, .valued .delimiter false "%".toList])) o ∧
      (requestGdump (GetPot.CommandLine.ofObject o)).map Prod.fst =
        some (.summarize
          (lineSwitches [.valued .outputDir true "dir".toList, .switch .quiet false,
            .file "file".toList, .valued .delimiter false "%".toList])
          "file".toList "%".toList "dir".toList) := by
  have hline : IsGdumpLine [.valued .outputDir true "dir".toList, .switch .quiet false,
      .file "file".toList, .valued .delimiter false "%".toList] "file".toList :=
    { inputs := by decide
      path := rfl
      once := fun k => by cases k <;> decide
      apart := fun k => by cases k <;> decide }
  have hname : isMinus "gdump".toList = false := by decide
  exact requestGdump_lineArgs GetPot.wholeDoubles hname hline

end Grvy.Apps
