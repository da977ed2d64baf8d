import Grvy.Apps.GaddRequests

/-!
The command lines of `gadd` that save a measurement.

Flags and options come in any order before the time, the name and the file. If each option has
one value at most, no switch is given in both of its spellings, and the values are not mixed
with what is required, then everything is saved as it is written.
-/

namespace Grvy.Apps

open Grvy.Lib
open GetPot (isMinus)

variable {D : Type}

/-! ### What a line says -/

/-- The flags that are searched for. -/
def gaddFlags : List CText :=
  ["--debug".toList, "--quiet".toList, "-q".toList, "--with-env".toList, "-e".toList]

/-- The argument of an item that has a minus. -/
def Item.text : Item → CText
  | .flag f => f.val
  | .option o => o.text

namespace CommandLine

variable (line : CommandLine)

/-- The value that is given for an option. -/
def valueOf (k : Kind) : Option CText := (line.given.find? fun o => o.kind = k).map Given.value

def hasFlag (texts : List CText) : Bool := line.items.any fun i => i.text ∈ texts

/-- The options as they are written, and the defaults of the others. -/
def options (numbers : Numbers D) : Options D where
  comment := (line.valueOf .comment).getD []
  revision := (line.valueOf .revision).getD "unknown".toList
  machine := (line.valueOf .machine).getD []
  jobId := (line.valueOf .jobId).elim (-1) fun text => numbers.toInt text (-1)
  numprocs := (line.valueOf .numprocs).elim 1 fun text => numbers.toInt text 1
  flops := (line.valueOf .flops).elim numbers.zero fun text =>
    numbers.toDouble text numbers.zero

/-- What the flags set. -/
def switches : Switches where
  options :=
    { Switches.default.options with
      outputStdout := !line.hasFlag ["--quiet".toList, "-q".toList]
      outputPrintenv := line.hasFlag ["--with-env".toList, "-e".toList] }
  logLevel :=
    if line.hasFlag ["--quiet".toList, "-q".toList] then .error
    else if line.hasFlag ["--debug".toList] then .debug
    else .info

/-- A line that `gadd` accepts. -/
structure Accepted (numbers : Numbers D) : Prop where
  inputs : ∀ text ∈ line.values ++ line.required, IsInput text
  flags : ∀ f : Flag, .flag f ∈ line.items → f.val ∈ gaddFlags
  quiet : ¬("--quiet".toList ∈ line.items.map Item.text ∧ "-q".toList ∈ line.items.map Item.text)
  withEnv : ¬("--with-env".toList ∈ line.items.map Item.text ∧
    "-e".toList ∈ line.items.map Item.text)
  unmixed : line.Unmixed numbers

end CommandLine

/-! ### The arguments with a minus -/

section Line

variable {numbers : Numbers D} {line : CommandLine} {text : CText}

@[simp] theorem Item.isMinus_text (i : Item) : isMinus i.text = true := by
  cases i with
  | flag f => exact f.property.1
  | option o => exact Apps.isMinus_text o

theorem filter_isMinus_args (hplain : ∀ x ∈ line.required, isMinus x = false) :
    line.args.filter isMinus = line.items.map Item.text := by
  have hrequired : line.required.filter isMinus = [] :=
    List.filter_eq_nil_iff.mpr fun x hx => by rw [hplain x hx]; exact Bool.false_ne_true
  have hitem : ∀ i : Item, i.args.filter isMinus = [i.text] := by
    intro i
    cases i with
    | flag f => exact List.filter_cons_of_pos f.property.1
    | option o =>
        rw [Item.args, List.filter_cons_of_pos (isMinus_text o),
          List.filter_cons_of_neg (by rw [o.value_plain]; exact Bool.false_ne_true)]
        rfl
  rw [CommandLine.args, List.filter_append, hrequired, List.append_nil, List.filter_flatMap]
  simp only [hitem, ← List.map_eq_flatMap]

theorem mem_args_iff (hplain : ∀ x ∈ line.required, isMinus x = false)
    (hminus : isMinus text = true) : text ∈ line.args ↔ text ∈ line.items.map Item.text := by
  rw [← filter_isMinus_args hplain, List.mem_filter, hminus, and_iff_left rfl]

theorem option_mem_items {o : Given} : .option o ∈ line.items ↔ o ∈ line.given := by
  rw [CommandLine.given, List.mem_flatMap]
  constructor
  · exact fun h => ⟨_, h, List.mem_singleton_self o⟩
  · rintro ⟨i, hi, ho⟩
    cases i with
    | flag f => cases ho
    | option o' => rwa [List.mem_singleton.mp ho]

/-- Only an option has the text of one. -/
theorem exists_given_of_text (hres : text ∈ reserved) (h : text ∈ line.items.map Item.text) :
    ∃ o ∈ line.given, o.text = text := by
  obtain ⟨i, hi, htext⟩ := List.mem_map.mp h
  cases i with
  | flag f =>
      subst htext
      exact absurd hres f.property.2
  | option o => exact ⟨o, option_mem_items.mp hi, htext⟩

theorem count_items (hres : text ∈ reserved) :
    (line.items.map Item.text).count text = line.given.countP fun o => o.text = text := by
  rw [CommandLine.given, List.count_eq_countP, List.countP_map, List.countP_flatMap]
  induction line.items with
  | nil => rfl
  | cons i items ih =>
      rw [List.countP_cons, ih, List.map_cons, List.sum_cons, Nat.add_comm]
      congr 1
      cases i with
      | flag f =>
          have hne : f.val ≠ text := fun heq => f.property.2 (heq ▸ hres)
          simp [Item.text, Item.given, hne]
      | option o => simp [Item.text, Item.given, List.countP_cons]

/-- An option is there once at most in each spelling. -/
theorem atMostOnce_args (hplain : ∀ x ∈ line.required, isMinus x = false) (k : Kind) :
    AtMostOnce [k.long, k.short] line.args := by
  have hkind : (line.given.countP fun o => o.kind = k) ≤ 1 := by
    have hcount := List.nodup_iff_count_le_one.mp line.once k
    rwa [List.count_eq_countP, List.countP_map] at hcount
  have hcount : ∀ text, isMinus text = true → text ∈ reserved →
      (∀ o : Given, o.text = text → o.kind = k) → line.args.count text ≤ 1 := by
    intro text hminus hres hown
    rw [← List.count_filter hminus, filter_isMinus_args hplain, count_items hres]
    refine le_trans (List.countP_mono_left fun o _ ho => ?_) hkind
    exact decide_eq_true (hown o (of_decide_eq_true ho))
  intro opt hopt
  rcases List.mem_pair.mp hopt with rfl | rfl
  · exact hcount _ (isMinus_long k) (long_mem_reserved k) fun o ho =>
      ((text_eq_long_iff o k).mp ho).1
  · exact hcount _ (isMinus_short k) (short_mem_reserved k) fun o ho =>
      ((text_eq_short_iff o k).mp ho).1

/-! ### The options of a line -/

/-- A search for an option finds its value next to it. -/
theorem search2_args (hplain : ∀ x ∈ line.required, isMinus x = false) (k : Kind) :
    (search2 k.long k.short line.args).map List.head? = (line.valueOf k).map some := by
  have hmore : ∀ option, isMinus option = true → option ∉ line.required := by
    intro option hminus hmem
    rw [hplain option hmem] at hminus
    cases hminus
  have hfind : (line.given.find? fun o => o.text = k.long).or
      (line.given.find? fun o => o.text = k.short) = line.given.find? fun o => o.kind = k := by
    have hkind := congrArg List.head? (find?_kind line.once k)
    rw [← CommandLine.given, List.head?_filter] at hkind
    rw [← hkind]
    cases (line.given.find? fun o => o.text = k.long).or
      (line.given.find? fun o => o.text = k.short) <;> rfl
  rw [CommandLine.valueOf, ← hfind, search2, Option.map_or, CommandLine.args,
    head?_search (isMinus_long k) (long_mem_reserved k) (hmore _ (isMinus_long k)),
    head?_search (isMinus_short k) (short_mem_reserved k) (hmore _ (isMinus_short k)),
    ← CommandLine.given, Option.map_map, Option.map_or]
  rfl

theorem fst_readOptionalArgument {T : Type} (hplain : ∀ x ∈ line.required, isMinus x = false)
    (k : Kind) (convert : CText → T → T) (lexicalCast : T → CText) (varname : T)
    (arguments : List CText) :
    (readOptionalArgument convert lexicalCast line.args k.long k.short varname arguments).1 =
      (line.valueOf k).elim varname fun text => convert text varname := by
  have hsearch := search2_args hplain k
  rw [readOptionalArgument]
  cases hvalue : line.valueOf k with
  | none =>
      rw [hvalue, Option.map_none, Option.map_eq_none_iff] at hsearch
      rw [hsearch]
      rfl
  | some value =>
      rw [hvalue, Option.map_some, Option.map_eq_some_iff] at hsearch
      obtain ⟨rest, hrest, hhead⟩ := hsearch
      rw [hrest, Option.elim_some]
      dsimp only
      rw [hhead, Option.elim_some]

theorem fst_readOptions (hplain : ∀ x ∈ line.required, isMinus x = false) :
    (readOptions numbers line.args).1 = line.options numbers := by
  have hstring : ∀ (k : Kind) varname arguments,
      (readOptionalString line.args k.long k.short varname arguments).1 =
        (line.valueOf k).getD varname := by
    intro k varname arguments
    rw [readOptionalString, fst_readOptionalArgument hplain]
    cases line.valueOf k <;> rfl
  simp only [readOptions]
  rw [CommandLine.options, Options.mk.injEq]
  exact ⟨hstring .comment _ _, hstring .revision _ _, hstring .machine _ _,
    fst_readOptionalArgument hplain .jobId _ _ _ _,
    fst_readOptionalArgument hplain .numprocs _ _ _ _,
    fst_readOptionalArgument hplain .flops _ _ _ _⟩

/-! ### The outcome -/

theorem hasFlag_eq (hplain : ∀ x ∈ line.required, isMinus x = false) {opts : List CText}
    (hopts : ∀ opt ∈ opts, isMinus opt = true) :
    line.hasFlag opts = decide (∃ opt ∈ opts, opt ∈ line.args) := by
  rw [Bool.eq_iff_iff, decide_eq_true_iff, CommandLine.hasFlag, List.any_eq_true]
  constructor
  · rintro ⟨i, hi, htext⟩
    have hopt := of_decide_eq_true htext
    exact ⟨i.text, hopt, (mem_args_iff hplain (hopts _ hopt)).mpr (List.mem_map_of_mem hi)⟩
  · rintro ⟨opt, hopt, hmem⟩
    obtain ⟨i, hi, rfl⟩ := List.mem_map.mp ((mem_args_iff hplain (hopts opt hopt)).mp hmem)
    exact ⟨i, hi, decide_eq_true hopt⟩

theorem gaddSwitched_args (hplain : ∀ x ∈ line.required, isMinus x = false) :
    gaddSwitched line.args = line.switches := by
  have hswitched : ∀ opts set s, (∀ opt ∈ opts, isMinus opt = true) →
      switched line.args opts set s = if line.hasFlag opts = true then set s else s := by
    intro opts set s hopts
    rw [switched, hasFlag_eq hplain hopts]
    exact if_congr decide_eq_true_iff.symm rfl rfl
  rw [gaddSwitched, CommandLine.switches]
  simp (disch := decide) only [hswitched]
  cases line.hasFlag ["--debug".toList] <;>
    cases line.hasFlag ["--quiet".toList, "-q".toList] <;>
    cases line.hasFlag ["--with-env".toList, "-e".toList] <;> rfl

theorem mem_gaddValued (k : Kind) : (k.long, k.short) ∈ gaddValued := by cases k <;> decide

theorem exists_of_mem_gaddValued {long short : CText} (h : (long, short) ∈ gaddValued) :
    ∃ k : Kind, long = k.long ∧ short = k.short := by
  have hall : gaddValued = Kind.all.map fun k => (k.long, k.short) := rfl
  rw [hall, List.mem_map] at h
  obtain ⟨k, -, heq⟩ := h
  obtain ⟨rfl, rfl⟩ := Prod.mk.inj heq
  exact ⟨k, rfl, rfl⟩

/-- An option is supported in the spelling in which it is given. -/
theorem text_recorded (hplain : ∀ x ∈ line.required, isMinus x = false) {o : Given}
    (ho : o ∈ line.given) : o.text ∈ recordedValue line.args o.kind.long o.kind.short := by
  refine List.mem_append_left _ (mem_recorded.mpr ?_)
  cases hlong : o.long with
  | true => exact .inl ((text_eq_long_iff o o.kind).mpr ⟨rfl, hlong⟩)
  | false =>
      refine .inr ⟨List.mem_singleton.mpr ((text_eq_short_iff o o.kind).mpr ⟨rfl, hlong⟩), ?_⟩
      rw [mem_args_iff hplain (isMinus_long o.kind)]
      intro hmem
      obtain ⟨o', ho', htext⟩ := exists_given_of_text (long_mem_reserved o.kind) hmem
      obtain ⟨hkind, htrue⟩ := (text_eq_long_iff o' o.kind).mp htext
      rw [eq_of_kind_eq line.once ho ho' hkind, hlong] at htrue
      cases htrue

/-- So is a switch that is not given in both. -/
theorem flag_recorded (h : line.Accepted numbers) (hmem : text ∈ gaddFlags)
    (hargs : text ∈ line.args) : text ∈ gaddSwitches.flatMap (GetPot.recorded line.args) := by
  have halone : ∀ long short, isMinus long = true → isMinus short = true →
      ¬(long ∈ line.items.map Item.text ∧ short ∈ line.items.map Item.text) →
      short ∈ line.args → short ∈ GetPot.recorded line.args [long, short] := by
    intro long short hlong hshort hboth hshortArgs
    rw [mem_args_iff h.unmixed.plain hshort] at hshortArgs
    refine mem_recorded.mpr (.inr ⟨List.mem_singleton_self short, ?_⟩)
    rw [mem_args_iff h.unmixed.plain hlong]
    exact fun hlongArgs => hboth ⟨hlongArgs, hshortArgs⟩
  have hsearched : ∀ opts ∈ gaddSwitches, text ∈ GetPot.recorded line.args opts →
      text ∈ gaddSwitches.flatMap (GetPot.recorded line.args) := fun opts hopts hrecorded =>
    List.mem_flatMap.mpr ⟨opts, hopts, hrecorded⟩
  simp only [gaddFlags, List.mem_cons, List.not_mem_nil, or_false] at hmem
  rcases hmem with rfl | rfl | rfl | rfl | rfl
  · exact hsearched ["--debug".toList] (by decide) (mem_recorded.mpr (.inl rfl))
  · exact hsearched ["--quiet".toList, "-q".toList] (by decide) (mem_recorded.mpr (.inl rfl))
  · exact hsearched ["--quiet".toList, "-q".toList] (by decide)
      (halone _ _ (by decide) (by decide) h.quiet hargs)
  · exact hsearched ["--with-env".toList, "-e".toList] (by decide) (mem_recorded.mpr (.inl rfl))
  · exact hsearched ["--with-env".toList, "-e".toList] (by decide)
      (halone _ _ (by decide) (by decide) h.withEnv hargs)

theorem unsupported_args (h : line.Accepted numbers) :
    unsupported gaddSwitches gaddValued line.args = [] := by
  have hplain := h.unmixed.plain
  refine List.filter_eq_nil_iff.mpr fun text hargs hkept => ?_
  simp only [Bool.and_eq_true, decide_eq_true_eq] at hkept
  obtain ⟨⟨⟨hminus, -⟩, hswitches⟩, hvalued⟩ := hkept
  obtain ⟨i, hi, rfl⟩ := List.mem_map.mp ((mem_args_iff hplain hminus).mp hargs)
  cases i with
  | flag f => exact hswitches (flag_recorded h (h.flags f hi) hargs)
  | option o =>
      refine hvalued (List.mem_flatMap.mpr ⟨_, mem_gaddValued o.kind, ?_⟩)
      exact text_recorded hplain (option_mem_items.mp hi)

/-- The outcome of a line is to save what it says. -/
theorem gaddOutcome_args (h : line.Accepted numbers) :
    gaddOutcome numbers line.args =
      .save line.switches (line.options numbers) line.time line.name line.file := by
  obtain ⟨⟨options, rest⟩, hparse, hrest⟩ := Option.map_eq_some_iff.mp h.unmixed.inputs
  have hoptions : options = line.options numbers := by
    rw [← fst_readOptions h.unmixed.plain]
    rw [parseSupportedOptions] at hparse
    split at hparse
    · cases hparse
    · split at hparse
      · cases hparse
      · rw [Option.some.inj hparse]
  obtain rfl : rest = line.required := hrest
  rw [gaddOutcome, hparse]
  dsimp only
  rw [unsupported_args h, if_neg (not_not.mpr rfl), gaddSwitched_args h.unmixed.plain, hoptions]
  rfl

theorem plainCommand_args {name : CText} (hname : isMinus name = false)
    (h : line.Accepted numbers) : PlainCommand name line.args := by
  have hflag : ∀ text ∈ gaddFlags, GetPot.IsPlainArgument text ∧ text ≠ [] := by decide
  have hkind : ∀ k : Kind, (GetPot.IsPlainArgument k.long ∧ k.long ≠ []) ∧
      GetPot.IsPlainArgument k.short ∧ k.short ≠ [] := by
    intro k
    cases k <;> decide
  have hinput : ∀ text ∈ line.values ++ line.required,
      GetPot.IsPlainArgument text ∧ text ≠ [] := fun text htext =>
    ⟨(h.inputs text htext).plain, (h.inputs text htext).ne_nil⟩
  have hall : ∀ text ∈ line.args, GetPot.IsPlainArgument text ∧ text ≠ [] := by
    intro text htext
    rcases List.mem_append.mp htext with hmem | hmem
    · obtain ⟨i, hi, harg⟩ := List.mem_flatMap.mp hmem
      cases i with
      | flag f => exact List.mem_singleton.mp harg ▸ hflag _ (h.flags f hi)
      | option o =>
          rcases List.mem_pair.mp harg with rfl | rfl
          · rw [Given.text]
            split
            · exact (hkind o.kind).1
            · exact (hkind o.kind).2
          · have hvalue : o.value ∈ line.values := List.mem_map_of_mem (option_mem_items.mp hi)
            exact hinput _ (List.mem_append_left _ hvalue)
    · exact hinput text (List.mem_append_right _ hmem)
  exact
    { plain := fun text htext => (hall text htext).1
      notMem_nil := fun hmem => (hall [] hmem).2 rfl
      name := hname }

/-- **A command line of `gadd`.** Its options are saved as they are written, with the time, the
name and the file at its end. -/
theorem requestGadd_args (d : GetPot.Doubles) {name : CText} (hname : isMinus name = false)
    (h : line.Accepted numbers) :
    ∃ o, Settles (fun n => GetPot.construct d n name line.args) o ∧
      (requestGadd numbers (GetPot.CommandLine.ofObject o)).map Prod.fst =
        some (.save line.switches (line.options numbers) line.time line.name line.file) := by
  have honce : ∀ long short, (long, short) ∈ gaddValued →
      AtMostOnce [long, short] line.args := by
    intro long short hmem
    obtain ⟨k, rfl, rfl⟩ := exists_of_mem_gaddValued hmem
    exact atMostOnce_args h.unmixed.plain k
  obtain ⟨o, hsettles, hrun⟩ :=
    requestGadd_construct d numbers (plainCommand_args hname h) honce
  exact ⟨o, hsettles, hrun.trans (congrArg some (gaddOutcome_args h))⟩

end Line

/-- `-m hal -q 3 ring perf.h5` -/
def onHal : CommandLine where
  items :=
    [.option { kind := .machine, long := false, value := "hal".toList, value_plain := by decide },
      .flag ⟨"-q".toList, by decide⟩]
  time := "3".toList
  name := "ring".toList
  file := "perf.h5".toList
  once := List.nodup_singleton _

theorem accepted_onHal : onHal.Accepted wholeNumbers := by
  have hgiven : ∀ o ∈ onHal.given, o.kind = .machine ∧ o.value = "hal".toList := by decide
  have hflags : ∀ i ∈ onHal.items, i.text ∈ "-m".toList :: gaddFlags := by decide
  refine ⟨by decide, ?_, by decide, by decide, by decide, ?_, by decide, ?_⟩
  · intro f hf
    refine (List.mem_cons.mp (hflags _ hf)).resolve_left fun heq => f.property.2 ?_
    rw [show f.val = "-m".toList from heq]
    decide
  · intro o ho
    rw [(hgiven o ho).1]
    rfl
  · intro before o after hsplit htext
    have ho : o ∈ onHal.given := by
      rw [hsplit]
      exact List.mem_append_right before List.mem_cons_self
    rw [(hgiven o ho).2] at htext
    exact absurd htext (by decide)

/-- Nothing but the name of the machine differs from the defaults. -/
theorem onHal_saved :
    ∃ o, Settles (fun n => GetPot.construct GetPot.wholeDoubles n "gadd".toList onHal.args) o ∧
      (requestGadd wholeNumbers (GetPot.CommandLine.ofObject o)).map Prod.fst =
        some (.save
          { options := { Switches.default.options with outputStdout := false }
            logLevel := .error }
          { comment := []
            revision := "unknown".toList
            machine := "hal".toList
            jobId := -1
            numprocs := 1
            flops := 0 }
          "3".toList "ring".toList "perf.h5".toList) :=
  requestGadd_args GetPot.wholeDoubles (by decide) accepted_onHal

end Grvy.Apps
