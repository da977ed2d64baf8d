import Grvy.Apps.Arguments

/-!
`parse_supported_options` of `gdump` as a run of requests to GetPot, what it comes to, and the
command lines that are summarized.
-/

namespace Grvy.Apps

open Grvy.Lib

/-! ### The program -/

/-- What becomes of a command line of `gdump`. -/
inductive GdumpOutcome where
  | version
  | help
  /-- exit with these arguments reported -/
  | unsupported (ufos : List CText)
  /-- exit with the usage -/
  | usage
  /-- the call of `SummarizeHistTiming` -/
  | summarize (switches : Switches) (inputFile delimiter outputDir : CText)

/-- Both options that `--enable-subtimers` sets. -/
def enableSubtimers (s : Switches) : Switches :=
  setOption "output_totaltimer_raw" true (setOption "output_subtimer_raw" true s)

/-- `parse_supported_options` of `gdump`. -/
def requestGdump : Requests GdumpOutcome := do
  if ← find ["--version".toList] then return .version
  if ← find ["--help".toList, "-h".toList] then return .help
  let inputs ← readNominus
  let switches ← readSwitch ["--quiet".toList, "-q".toList] (setOption "output_stdout" false)
    .default
  let switches ← readSwitch ["--debug".toList] (setLogLevel .debug) switches
  let switches ← readSwitch ["--summarize-only".toList, "-s".toList]
    (setOption "dump_files" false) switches
  let switches ← readSwitch ["--with-comment".toList, "-c".toList]
    (setOption "output_comments" true) switches
  let switches ← readSwitch ["--with-env".toList, "-e".toList]
    (setOption "output_printenv" true) switches
  let switches ← readSwitch ["--enable-subtimers".toList, "-a".toList] enableSubtimers switches
  let (delimiter, inputs) ← takeOptionalString "--delimiter".toList "-d".toList "#".toList inputs
  let (outputDir, inputs) ←
    takeOptionalString "--output-dir".toList "-o".toList "./gdata".toList inputs
  let ufos ← readUnidentified
  if ufos ≠ [] then return .unsupported ufos
  match inputs with
  | [inputFile] => return .summarize switches inputFile delimiter outputDir
  | _ => return .usage

/-! ### What it comes to -/

def gdumpSwitches : List (List CText) :=
  [["--version".toList], ["--help".toList, "-h".toList], ["--quiet".toList, "-q".toList],
    ["--debug".toList], ["--summarize-only".toList, "-s".toList],
    ["--with-comment".toList, "-c".toList], ["--with-env".toList, "-e".toList],
    ["--enable-subtimers".toList, "-a".toList]]

def gdumpValued : List (CText × CText) :=
  [("--delimiter".toList, "-d".toList), ("--output-dir".toList, "-o".toList)]

/-- What the switches among the arguments set. -/
def gdumpSwitched (args : List CText) : Switches :=
  let s := switched args ["--quiet".toList, "-q".toList] (setOption "output_stdout" false) .default
  let s := switched args ["--debug".toList] (setLogLevel .debug) s
  let s := switched args ["--summarize-only".toList, "-s".toList] (setOption "dump_files" false) s
  let s := switched args ["--with-comment".toList, "-c".toList]
    (setOption "output_comments" true) s
  let s := switched args ["--with-env".toList, "-e".toList] (setOption "output_printenv" true) s
  switched args ["--enable-subtimers".toList, "-a".toList] enableSubtimers s

/-- The outcome without a cursor. -/
def gdumpOutcome (args : List CText) : GdumpOutcome :=
  if "--version".toList ∈ args then .version
  else if "--help".toList ∈ args ∨ "-h".toList ∈ args then .help
  else
    let (delimiter, inputs) := readOptionalString args "--delimiter".toList "-d".toList
      "#".toList (nominusVector args)
    let (outputDir, inputs) := readOptionalString args "--output-dir".toList "-o".toList
      "./gdata".toList inputs
    let ufos := unsupported gdumpSwitches gdumpValued args
    if ufos ≠ [] then .unsupported ufos
    else
      match inputs with
      | [inputFile] => .summarize (gdumpSwitched args) inputFile delimiter outputDir
      | _ => .usage

section Gdump

variable {name : CText} {args : List CText}

theorem yields_requestGdump (hcommand : PlainCommand name args)
    (honce : ∀ long short, (long, short) ∈ gdumpValued → AtMostOnce [long, short] args) :
    Yields
      (GetPot.Reading name args [] (args.filter fun arg => (GetPot.splitAssignment arg).isSome))
      requestGdump (gdumpOutcome args) fun _ => True := by
  rw [requestGdump, gdumpOutcome]
  refine yields_guard hcommand (by decide) (by simp) ?_
  refine yields_guard hcommand (by decide) (by simp) ?_
  refine (yields_readNominus hcommand).bind ?_
  refine (yields_readSwitch hcommand (by decide) _ _).bind ?_
  refine (yields_readSwitch hcommand (by decide) _ _).bind ?_
  refine (yields_readSwitch hcommand (by decide) _ _).bind ?_
  refine (yields_readSwitch hcommand (by decide) _ _).bind ?_
  refine (yields_readSwitch hcommand (by decide) _ _).bind ?_
  refine (yields_readSwitch hcommand (by decide) _ _).bind ?_
  refine (yields_takeOptionalString "--delimiter".toList "-d".toList hcommand (by decide)
    (honce _ _ (by decide)) _ _).bind ?_
  rcases readOptionalString args "--delimiter".toList "-d".toList "#".toList
    (nominusVector args) with ⟨delimiter, inputs⟩
  dsimp only
  refine (yields_takeOptionalString "--output-dir".toList "-o".toList hcommand (by decide)
    (honce _ _ (by decide)) _ _).bind ?_
  rcases readOptionalString args "--output-dir".toList "-o".toList "./gdata".toList inputs with
    ⟨outputDir, inputs⟩
  dsimp only
  refine (yields_readUnidentified hcommand).bind ?_
  rw [filter_requested gdumpSwitches gdumpValued]
  · by_cases hufos : unsupported gdumpSwitches gdumpValued args ≠ []
    · rw [if_pos hufos, if_pos hufos]
      exact (yields_pure _ _).mono fun _ _ => trivial
    · rw [if_neg hufos, if_neg hufos]
      split <;> exact (yields_pure _ _).mono fun _ _ => trivial
  · intro arg
    simp only [gdumpSwitches, gdumpValued, List.flatMap_cons, List.flatMap_nil, List.append_nil,
      List.mem_append, List.mem_filter, or_assoc]
    rw [or_left_comm (b := arg ∈ nominusVector args), or_left_comm (b := arg ∈ nominusVector args)]

/-- **The command line of `gdump`.** The requests come to the outcome of the arguments, wherever
the cursor has been. -/
theorem requestGdump_construct (d : GetPot.Doubles) (hcommand : PlainCommand name args)
    (honce : ∀ long short, (long, short) ∈ gdumpValued → AtMostOnce [long, short] args) :
    ∃ o, Settles (fun n => GetPot.construct d n name args) o ∧
      (requestGdump (GetPot.CommandLine.ofObject o)).map Prod.fst =
        some (gdumpOutcome args) := by
  obtain ⟨o, hsettles, hreading⟩ := hcommand.reading d
  obtain ⟨cl, hrun, -⟩ := yields_requestGdump hcommand honce _ hreading
  refine ⟨o, hsettles, ?_⟩
  rw [hrun]
  rfl

end Gdump

/-- The short spelling is not searched for when the long one has been found. -/
theorem quiet_twice :
    ∃ o, Settles (fun n => GetPot.construct GetPot.wholeDoubles n "gdump".toList
        ["--quiet".toList, "-q".toList, "file".toList]) o ∧
      (requestGdump (GetPot.CommandLine.ofObject o)).map Prod.fst =
        some (.unsupported ["-q".toList]) := by
  have hcommand : PlainCommand "gdump".toList ["--quiet".toList, "-q".toList, "file".toList] :=
    ⟨by decide, by decide, by decide⟩
  have honce : ∀ opt ∈ gdumpValued, AtMostOnce [opt.1, opt.2]
      ["--quiet".toList, "-q".toList, "file".toList] := by decide
  obtain ⟨o, hsettles, hrun⟩ := requestGdump_construct GetPot.wholeDoubles hcommand
    fun long short hmem => honce (long, short) hmem
  exact ⟨o, hsettles, hrun.trans rfl⟩

end Grvy.Apps
