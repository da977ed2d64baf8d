import Grvy.GetPot.Object
import Grvy.Lib.SkippingErase
import Mathlib.Data.List.Perm.Subperm

/-!
How `gadd` reads its command line.

The arguments without a minus are listed first, and every option that is given takes
its value from that list again: not from a place in it, but wherever the text of the
value is. For a number this is the text that the number is printed with. What is left
should be the time, the name and the file.
-/

namespace Grvy.Apps

open Grvy.Lib
open GetPot (isMinus)

/-- `lexical_cast<string>` of an `int`. -/
def intText (n : Int32) : CText := n.toInt.repr.toList

/-- How numbers are read and printed, with `D` for `double`: GetPot's conversions, which have
a default for what is not a number, and `lexical_cast<string>`. What an `int` is printed with
is read as this number, and printed so again if it is read as a `double`. -/
structure Numbers (D : Type) where
  toInt : CText → Int32 → Int32
  toDouble : CText → D → D
  doubleText : D → CText
  zero : D
  toInt_intText : ∀ text n m, toInt (intText (toInt text n)) m = toInt text n
  doubleText_intText : ∀ text n d,
    doubleText (toDouble (intText (toInt text n)) d) = intText (toInt text n)

/-! ### GetPot -/

/-- `nominus_vector`. -/
def nominusVector (args : List CText) : List CText := args.filter fun arg => !isMinus arg

/-- `search`: what follows the option, if it is there. GetPot begins where the search before
has ended and goes round, which makes no difference for an option that is there once. -/
def search (option : CText) : List CText → Option (List CText)
  | [] => none
  | arg :: rest => if arg = option then some rest else search option rest

/-- `search(2, ...)`. -/
def search2 (option1 option2 : CText) (args : List CText) : Option (List CText) :=
  (search option1 args).or (search option2 args)

/-! ### The options -/

/-- `pop_argument`: erasing at an index brings the next argument there, and the loop goes on
with the next index. -/
def popArgument (inputs : List CText) (arg : CText) : List CText := eraseSkipping arg inputs

/-- `read_optional_argument`, for a type with its conversions. -/
def readOptionalArgument {T : Type} (convert : CText → T → T) (lexicalCast : T → CText)
    (args : List CText) (optText1 optText2 : CText) (varname : T) (arguments : List CText) :
    T × List CText :=
  match search2 optText1 optText2 args with
  | none => (varname, arguments)
  | some rest =>
      let varname := rest.head?.elim varname fun text => convert text varname
      (varname, popArgument arguments (lexicalCast varname))

def readOptionalString (args : List CText) (optText1 optText2 varname : CText)
    (arguments : List CText) : CText × List CText :=
  readOptionalArgument (fun text _ => text) id args optText1 optText2 varname arguments

structure Options (D : Type) where
  comment : CText
  revision : CText
  machine : CText
  jobId : Int32
  numprocs : Int32
  flops : D

/-- The values of the options, and the arguments that are left. -/
def readOptions {D : Type} (numbers : Numbers D) (args : List CText) : Options D × List CText :=
  let inputs := nominusVector args
  let (comment, inputs) :=
    readOptionalString args "--comment".toList "-c".toList [] inputs
  let (revision, inputs) :=
    readOptionalString args "--revision".toList "-r".toList "unknown".toList inputs
  let (machine, inputs) :=
    readOptionalString args "--machine".toList "-m".toList [] inputs
  let (jobId, inputs) :=
    readOptionalArgument numbers.toInt intText args "--jobId".toList "-j".toList (-1) inputs
  let (numprocs, inputs) :=
    readOptionalArgument numbers.toInt intText args "--numprocs".toList "-p".toList 1 inputs
  let (flops, inputs) :=
    readOptionalArgument numbers.toDouble numbers.doubleText args "--flops".toList "-f".toList
      numbers.zero inputs
  ({ comment, revision, machine, jobId, numprocs, flops }, inputs)

/-- `parse_supported_options` up to its errors; `none` is the return after `--version` and
`--help`. -/
def parseSupportedOptions {D : Type} (numbers : Numbers D) (args : List CText) :
    Option (Options D × List CText) :=
  if (search "--version".toList args).isSome then none
  else if (search2 "--help".toList "-h".toList args).isSome then none
  else some (readOptions numbers args)

/-! ### Command lines -/

/-- The options that have a value. -/
inductive Kind where
  | comment
  | revision
  | machine
  | jobId
  | numprocs
  | flops
  deriving DecidableEq

namespace Kind

/-- In the order in which they are read. -/
def all : List Kind := [comment, revision, machine, jobId, numprocs, flops]

def rank : Kind → ℕ
  | comment => 0
  | revision => 1
  | machine => 2
  | jobId => 3
  | numprocs => 4
  | flops => 5

def long : Kind → CText
  | comment => "--comment".toList
  | revision => "--revision".toList
  | machine => "--machine".toList
  | jobId => "--jobId".toList
  | numprocs => "--numprocs".toList
  | flops => "--flops".toList

def short : Kind → CText
  | comment => "-c".toList
  | revision => "-r".toList
  | machine => "-m".toList
  | jobId => "-j".toList
  | numprocs => "-p".toList
  | flops => "-f".toList

end Kind

/-- An option with its value. -/
structure Given where
  kind : Kind
  long : Bool
  value : CText
  value_plain : isMinus value = false
  deriving DecidableEq

def Given.text (o : Given) : CText := if o.long then o.kind.long else o.kind.short

/-- The texts that are not flags. -/
def reserved : List CText :=
  Kind.all.map Kind.long ++ Kind.all.map Kind.short ++
    ["--version".toList, "--help".toList, "-h".toList]

/-- A flag: an option without a value. -/
abbrev Flag := { text : CText // isMinus text = true ∧ text ∉ reserved }

inductive Item where
  | flag (f : Flag)
  | option (o : Given)

def Item.args : Item → List CText
  | .flag f => [f.val]
  | .option o => [o.text, o.value]

def Item.given : Item → List Given
  | .flag _ => []
  | .option o => [o]

/-- Flags and options, each option once at most, and the three required arguments. -/
structure CommandLine where
  items : List Item
  time : CText
  name : CText
  file : CText
  once : ((items.flatMap Item.given).map Given.kind).Nodup

namespace CommandLine

variable (line : CommandLine)

def required : List CText := [line.time, line.name, line.file]

def args : List CText := line.items.flatMap Item.args ++ line.required

/-- The options that are given, in the order of the command line. -/
def given : List Given := line.items.flatMap Item.given

def values : List CText := line.given.map Given.value

end CommandLine

end Grvy.Apps
