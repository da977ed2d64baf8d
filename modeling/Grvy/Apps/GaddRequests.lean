import Grvy.Apps.Arguments
import Grvy.Apps.GaddInputs

/-!
`parse_supported_options` of `gadd` as a run of requests to GetPot, and that it comes to what
its options and inputs are without a cursor.
-/

namespace Grvy.Apps

open Grvy.Lib

variable {D : Type}

/-! ### The program -/

/-- What becomes of a command line of `gadd`. -/
inductive GaddOutcome (D : Type) where
  | version
  | help
  /-- exit with these arguments reported -/
  | unsupported (ufos : List CText)
  /-- exit with the usage -/
  | usage
  /-- the time is read from its text, and all is saved -/
  | save (switches : Switches) (options : Options D) (timing name inputFile : CText)

def requestOptions (numbers : Numbers D) (inputs : List CText) :
    Requests (Options D × List CText) := do
  let (comment, inputs) ← takeOptionalString "--comment".toList "-c".toList [] inputs
  let (revision, inputs) ←
    takeOptionalString "--revision".toList "-r".toList "unknown".toList inputs
  let (machine, inputs) ← takeOptionalString "--machine".toList "-m".toList [] inputs
  let (jobId, inputs) ←
    takeOptionalArgument numbers.toInt intText "--jobId".toList "-j".toList (-1) inputs
  let (numprocs, inputs) ←
    takeOptionalArgument numbers.toInt intText "--numprocs".toList "-p".toList 1 inputs
  let (flops, inputs) ←
    takeOptionalArgument numbers.toDouble numbers.doubleText "--flops".toList "-f".toList
      numbers.zero inputs
  return ({ comment, revision, machine, jobId, numprocs, flops }, inputs)

/-- `parse_supported_options` of `gadd` with its errors. -/
def requestGadd (numbers : Numbers D) : Requests (GaddOutcome D) := do
  if ← find ["--version".toList] then return .version
  if ← find ["--help".toList, "-h".toList] then return .help
  let inputs ← readNominus
  let switches ← readSwitch ["--debug".toList] (setLogLevel .debug) .default
  let switches ← readSwitch ["--quiet".toList, "-q".toList]
    (fun s => setLogLevel .error (setOption "output_stdout" false s)) switches
  let switches ← readSwitch ["--with-env".toList, "-e".toList]
    (setOption "output_printenv" true) switches
  let (options, inputs) ← requestOptions numbers inputs
  let ufos ← readUnidentified
  if ufos ≠ [] then return .unsupported ufos
  match inputs with
  | [timing, name, inputFile] => return .save switches options timing name inputFile
  | _ => return .usage

/-! ### What it comes to -/

def gaddSwitches : List (List CText) :=
  [["--version".toList], ["--help".toList, "-h".toList], ["--debug".toList],
    ["--quiet".toList, "-q".toList], ["--with-env".toList, "-e".toList]]

def gaddValued : List (CText × CText) :=
  [("--comment".toList, "-c".toList), ("--revision".toList, "-r".toList),
    ("--machine".toList, "-m".toList), ("--jobId".toList, "-j".toList),
    ("--numprocs".toList, "-p".toList), ("--flops".toList, "-f".toList)]

/-- What the switches among the arguments set. -/
def gaddSwitched (args : List CText) : Switches :=
  let s := switched args ["--debug".toList] (setLogLevel .debug) .default
  let s := switched args ["--quiet".toList, "-q".toList]
    (fun s => setLogLevel .error (setOption "output_stdout" false s)) s
  switched args ["--with-env".toList, "-e".toList] (setOption "output_printenv" true) s

/-- The outcome of the options, the inputs that are left and the arguments that are not
supported. -/
def gaddOutcome (numbers : Numbers D) (args : List CText) : GaddOutcome D :=
  match parseSupportedOptions numbers args with
  | none => if "--version".toList ∈ args then .version else .help
  | some (options, inputs) =>
      let ufos := unsupported gaddSwitches gaddValued args
      if ufos ≠ [] then .unsupported ufos
      else
        match inputs with
        | [timing, name, inputFile] =>
            .save (gaddSwitched args) options timing name inputFile
        | _ => .usage

section Gadd

variable {name : CText} {args requested : List CText}

theorem yields_requestOptions (numbers : Numbers D) (hcommand : PlainCommand name args)
    (honce : ∀ long short, (long, short) ∈ gaddValued → AtMostOnce [long, short] args) :
    Yields (GetPot.Reading name args [] requested) (requestOptions numbers (nominusVector args))
      (readOptions numbers args)
      (GetPot.Reading name args (gaddValued.reverse.flatMap fun opt => [opt.1, opt.2])
        (requested ++ gaddValued.flatMap fun opt => recordedValue args opt.1 opt.2)) := by
  rw [requestOptions, readOptions]
  refine (yields_takeOptionalString "--comment".toList "-c".toList hcommand (by decide)
    (honce _ _ (by decide)) _ _).bind ?_
  rcases readOptionalString args "--comment".toList "-c".toList [] (nominusVector args) with
    ⟨comment, inputs⟩
  dsimp only
  refine (yields_takeOptionalString "--revision".toList "-r".toList hcommand (by decide)
    (honce _ _ (by decide)) _ _).bind ?_
  rcases readOptionalString args "--revision".toList "-r".toList "unknown".toList inputs with
    ⟨revision, inputs⟩
  dsimp only
  refine (yields_takeOptionalString "--machine".toList "-m".toList hcommand (by decide)
    (honce _ _ (by decide)) _ _).bind ?_
  rcases readOptionalString args "--machine".toList "-m".toList [] inputs with ⟨machine, inputs⟩
  dsimp only
  refine (yields_takeOptionalArgument "--jobId".toList "-j".toList hcommand (by decide)
    (honce _ _ (by decide)) (fun _ _ _ => rfl) _ _ _).bind ?_
  rcases readOptionalArgument numbers.toInt intText args "--jobId".toList "-j".toList (-1) inputs
    with ⟨jobId, inputs⟩
  dsimp only
  refine (yields_takeOptionalArgument "--numprocs".toList "-p".toList hcommand (by decide)
    (honce _ _ (by decide)) (fun _ _ _ => rfl) _ _ _).bind ?_
  rcases readOptionalArgument numbers.toInt intText args "--numprocs".toList "-p".toList 1 inputs
    with ⟨numprocs, inputs⟩
  dsimp only
  refine (yields_takeOptionalArgument "--flops".toList "-f".toList hcommand (by decide)
    (honce _ _ (by decide)) (fun _ _ _ => rfl) _ _ _).bind ?_
  rcases readOptionalArgument numbers.toDouble numbers.doubleText args "--flops".toList
    "-f".toList numbers.zero inputs with ⟨flops, inputs⟩
  dsimp only
  refine (yields_pure _ _).mono fun cl h => ?_
  simpa [gaddValued] using h

theorem gaddOutcome_eq (numbers : Numbers D) (args : List CText) :
    gaddOutcome numbers args =
      if "--version".toList ∈ args then .version
      else if "--help".toList ∈ args ∨ "-h".toList ∈ args then .help
      else
        let ufos := unsupported gaddSwitches gaddValued args
        if ufos ≠ [] then .unsupported ufos
        else
          match (readOptions numbers args).2 with
          | [timing, name, inputFile] =>
              .save (gaddSwitched args) (readOptions numbers args).1 timing name inputFile
          | _ => .usage := by
  rw [gaddOutcome, parseSupportedOptions]
  by_cases hversion : "--version".toList ∈ args
  · rw [if_pos (isSome_search.mpr hversion), if_pos hversion, if_pos hversion]
  rw [if_neg (mt isSome_search.mp hversion), if_neg hversion]
  by_cases hhelp : "--help".toList ∈ args ∨ "-h".toList ∈ args
  · rw [if_pos (isSome_search2.mpr hhelp), if_neg hversion, if_pos hhelp]
  · rw [if_neg (mt isSome_search2.mp hhelp), if_neg hversion, if_neg hhelp]

theorem yields_requestGadd (numbers : Numbers D) (hcommand : PlainCommand name args)
    (honce : ∀ long short, (long, short) ∈ gaddValued → AtMostOnce [long, short] args) :
    Yields
      (GetPot.Reading name args [] (args.filter fun arg => (GetPot.splitAssignment arg).isSome))
      (requestGadd numbers) (gaddOutcome numbers args) fun _ => True := by
  rw [requestGadd, gaddOutcome_eq]
  refine yields_guard hcommand (by decide) (by simp) ?_
  refine yields_guard hcommand (by decide) (by simp) ?_
  refine (yields_readNominus hcommand).bind ?_
  refine (yields_readSwitch hcommand (by decide) _ _).bind ?_
  refine (yields_readSwitch hcommand (by decide) _ _).bind ?_
  refine (yields_readSwitch hcommand (by decide) _ _).bind ?_
  refine (yields_requestOptions numbers hcommand honce).bind ?_
  rcases readOptions numbers args with ⟨options, inputs⟩
  refine (yields_readUnidentified hcommand).bind ?_
  rw [filter_requested gaddSwitches gaddValued]
  · dsimp only
    by_cases hufos : unsupported gaddSwitches gaddValued args ≠ []
    · rw [if_pos hufos, if_pos hufos]
      exact (yields_pure _ _).mono fun _ _ => trivial
    · rw [if_neg hufos, if_neg hufos]
      split <;> exact (yields_pure _ _).mono fun _ _ => trivial
  · intro arg
    simp only [gaddSwitches, List.flatMap_cons, List.flatMap_nil, List.append_nil, List.mem_append,
      List.mem_filter, or_assoc]
    rw [or_left_comm (b := arg ∈ nominusVector args), or_left_comm (b := arg ∈ nominusVector args)]

/-- **The command line of `gadd`.** The requests come to the outcome of the arguments, wherever
the cursor has been. -/
theorem requestGadd_construct (d : GetPot.Doubles) (numbers : Numbers D)
    (hcommand : PlainCommand name args)
    (honce : ∀ long short, (long, short) ∈ gaddValued → AtMostOnce [long, short] args) :
    ∃ o, Settles (fun n => GetPot.construct d n name args) o ∧
      (requestGadd numbers (GetPot.CommandLine.ofObject o)).map Prod.fst =
        some (gaddOutcome numbers args) := by
  obtain ⟨o, hsettles, hreading⟩ := hcommand.reading d
  obtain ⟨cl, hrun, -⟩ := yields_requestGadd numbers hcommand honce _ hreading
  refine ⟨o, hsettles, ?_⟩
  rw [hrun]
  rfl

end Gadd

/-- A comment in front of the time, the name and the file. -/
theorem comment_read :
    ∃ o, Settles (fun n => GetPot.construct GetPot.wholeDoubles n "gadd".toList
        ["-c".toList, "x".toList, "1".toList, "foo".toList, "file".toList]) o ∧
      (requestGadd wholeNumbers (GetPot.CommandLine.ofObject o)).map Prod.fst =
        some (.save .default
          { comment := "x".toList, revision := "unknown".toList, machine := [], jobId := -1
            numprocs := 1, flops := 0 } "1".toList "foo".toList "file".toList) := by
  have hcommand : PlainCommand "gadd".toList
      ["-c".toList, "x".toList, "1".toList, "foo".toList, "file".toList] :=
    ⟨by decide, by decide, by decide⟩
  have honce : ∀ opt ∈ gaddValued, AtMostOnce [opt.1, opt.2]
      ["-c".toList, "x".toList, "1".toList, "foo".toList, "file".toList] := by decide
  obtain ⟨o, hsettles, hrun⟩ := requestGadd_construct GetPot.wholeDoubles wholeNumbers hcommand
    fun long short hmem => honce (long, short) hmem
  exact ⟨o, hsettles, hrun.trans rfl⟩

end Grvy.Apps
