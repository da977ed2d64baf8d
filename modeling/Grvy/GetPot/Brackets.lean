import Mathlib.Algebra.Group.Int.Defs
import Mathlib.Algebra.Group.Nat.Defs
import Mathlib.Data.Rat.Defs
import Grvy.Lib.Fuel
import Grvy.GetPot.Scanner

/-!
The dollar bracket expressions of GetPot.

An expression is a sign and a list of texts between blanks. Expressions in the list are
replaced by their values from the inside out, and what has been replaced is text of the
expression around it. `<->` replaces a text as long as it is found, and `!` takes an
expression list from a variable, so neither has to end: the interpreter is given fuel.

Floating point numbers are a parameter. What `/` prints is left out.
-/

namespace Grvy.GetPot

open Grvy.Lib

/-- The part of a string that `c_str()` shows. -/
def cStr (s : CText) : CText := s.takeWhile (· ≠ nul)

/-! ### Variables -/

/-- `GetPot::variable`. -/
structure Variable where
  name : CText
  original : CText
  value : List CText
  deriving DecidableEq

/-- The tokens of `strtok` at the field separators, which are the blanks. -/
def strtok (value : CText) : List CText := (value.splitOnP isBlank).filter (· ≠ [])

/-- `variable::take` into a variable of this name. -/
def Variable.take (name value : CText) : Variable where
  name := name
  original := value
  value := strtok value

/-- What an expression can see: the section that is open, and the variables. -/
structure Scope where
  activeSection : CText
  vars : List Variable

/-- `__find_variable`, with the prefix `pre`. -/
def findVariable (pre varName : CText) (vars : List Variable) : Option Variable :=
  vars.find? fun v => v.name = pre ++ cStr varName

/-- The buffer for this text is six characters short, and so the text is. -/
def undefinedText (varName : CText) : CText :=
  ("<<$\x7b \x7d variable '".toList ++ cStr varName ++ "' undefined>>".toList).take
    (varName.length + 24)

/-- `__DBE_get_variable`. A variable without a name says that there is none. -/
def dbeGetVariable (scope : Scope) (varName : CText) : Variable :=
  match findVariable scope.activeSection varName scope.vars with
  | some v => v
  | none =>
      match findVariable [] varName scope.vars with
      | some v => v
      | none => { name := [], original := undefinedText varName, value := [] }

/-! ### Floating point numbers -/

/-- What GetPot uses of `double`. -/
structure Doubles where
  Value : Type
  /-- `sscanf` with `"%lf"`. -/
  scan : CText → Option Value
  /-- `__double2string`. -/
  toText : Value → CText
  /-- The number a literal or an integer stands for. -/
  ofRat : ℚ → Value
  /-- `(int)`. -/
  toInt : Value → ℤ
  add : Value → Value → Value
  sub : Value → Value → Value
  mul : Value → Value → Value
  div : Value → Value → Value
  pow : Value → Value → Value
  eq : Value → Value → Bool
  lt : Value → Value → Bool
  le : Value → Value → Bool

namespace Doubles

variable (d : Doubles)

/-- `__convert_to_type`. -/
def convertToType (s : CText) (default : d.Value) : d.Value := (d.scan s).getD default

def zero : d.Value := d.ofRat 0

/-- The default that says that a text is not a number. -/
def notNumber : d.Value := d.ofRat (10 ^ 37)

/-- The index closest to a number that is not negative. -/
def toIndex (x : d.Value) : ℕ := (d.toInt (d.add x (d.ofRat (1 / 2)))).toNat

/-- The index behind the closest one. -/
def toEnd (y : d.Value) : ℕ := (d.toInt (d.add y (d.ofRat (3 / 2)))).toNat

/-- There is no place `x` among `size`. -/
def outOfRange (x : d.Value) (size : ℕ) : Bool :=
  d.eq x d.notNumber || d.lt x d.zero || d.le (d.ofRat size) x

/-- There is a place `y` among `size` that is behind `x`. -/
def inRangeFrom (x y : d.Value) (size : ℕ) : Bool :=
  !d.eq y d.notNumber && d.lt d.zero y && d.le y (d.ofRat size) && d.lt x y

end Doubles

/-- `sscanf` for a number without a fraction. -/
def scanWhole (s : CText) : Option ℤ :=
  let s := s.dropWhile isspace
  let digits := (if s.head? = some '-' then s.drop 1 else s).takeWhile Char.isDigit
  let size : ℤ := digits.foldl (fun n c => 10 * n + (c.toNat - 48)) 0
  if digits = [] then none else some (if s.head? = some '-' then -size else size)

/-- `%e` for a number without a fraction, of at most seven digits. -/
def wholeText (x : ℤ) : CText :=
  let digits := Nat.toDigits 10 x.natAbs
  let fraction := digits.drop 1 ++ List.replicate (7 - digits.length) '0'
  (if x < 0 then ['-'] else []) ++ digits.take 1 ++ '.' :: fraction ++ "e+0".toList ++
    Nat.toDigits 10 (digits.length - 1)

/-- Small numbers without a fraction. -/
def wholeDoubles : Doubles where
  Value := ℤ
  scan := scanWhole
  toText := wholeText
  ofRat := Rat.floor
  toInt := id
  add := (· + ·)
  sub := (· - ·)
  mul := (· * ·)
  div := Int.tdiv
  pow x y := x ^ y.toNat
  eq x y := x = y
  lt x y := x < y
  le x y := x ≤ y

/-! ### Lists of expressions -/

def missingArguments : CText := "<< $\x7b \x7d: missing arguments>>".toList

def padTo (expectedNumber : ℕ) (exprList : List CText) : List CText :=
  exprList ++ List.replicate (expectedNumber - exprList.length) missingArguments

/-- The text of brackets that have not been closed; `outer` is what has been read before each
of them, beginning with the innermost. -/
def openText (outer : List CText) (current : CText) : CText :=
  outer.foldl (fun text before => before ++ '$' :: '{' :: text) current

/-- The loop of `__DBE_get_expr_list` from a place in the string on. The text between the start
of the expression and this place is kept as what has been read in each of the brackets that
are open; `between` says that the place is behind an expression. -/
def exprListFrom (expand : CText → Option CText) (between : Bool) (outer : List CText)
    (current : CText) : CText → Option (List CText)
  | [] => some (if between then [] else [openText outer current])
  | '$' :: '{' :: str => exprListFrom expand false (current :: outer) [] str
  | letter :: str =>
      match outer with
      | [] =>
          if isspace letter then
            if between then exprListFrom expand true [] [] str
            else (exprListFrom expand true [] [] str).map (current :: ·)
          else exprListFrom expand false [] (current ++ [letter]) str
      | before :: outer' =>
          if letter = '}' then
            (expand current).bind fun replacement =>
              exprListFrom expand false outer' (before ++ replacement) str
          else exprListFrom expand false outer (current ++ [letter]) str

/-- `__DBE_get_expr_list`. -/
def dbeGetExprList (expand : CText → Option CText) (str : CText) (expectedNumber : ℕ) :
    Option (List CText) :=
  (exprListFrom expand false [] [] (str.dropWhile isspace)).map (padTo expectedNumber)

/-- The loop of `__DBE_expand_string`: `expr` is the text in the brackets that are open. A
bracket at the end of the string does not open. -/
def expandStringFrom (expand : CText → Option CText) (openBrackets : ℕ) (expr : CText) :
    CText → Option CText
  | [] => some []
  | '$' :: '{' :: c :: str =>
      if openBrackets = 0 then expandStringFrom expand 1 [] (c :: str)
      else expandStringFrom expand (openBrackets + 1) (expr ++ ['$', '{']) (c :: str)
  | c :: str =>
      if openBrackets = 0 then (expandStringFrom expand 0 [] str).map (c :: ·)
      else if c = '}' then
        if openBrackets = 1 then
          (expand expr).bind fun replacement =>
            (expandStringFrom expand 0 [] str).map (replacement ++ ·)
        else expandStringFrom expand (openBrackets - 1) (expr ++ [c]) str
      else expandStringFrom expand openBrackets (expr ++ [c]) str

/-! ### Values of lists -/

/-- A round of the loop that replaces the pattern in a text. -/
def replaceStep (pattern replacement : CText) (text : CText) : CText ⊕ CText :=
  match (List.range (text.length + 1)).find? fun i => pattern.isPrefixOf (text.drop i) with
  | none => .inr text
  | some i => .inl (text.take i ++ replacement ++ text.drop (i + pattern.length))

inductive Comparison
  | eq
  | geq
  | leq
  | gt
  | lt
  deriving DecidableEq

namespace Doubles

variable (d : Doubles)

/-- `+`, `-`, `*` and `^`. -/
def calculate (op : d.Value → d.Value → d.Value) : List CText → CText
  | [] => []
  | a :: as =>
      d.toText (as.foldl (fun result b => op result (d.convertToType b d.zero))
        (d.convertToType a d.zero))

/-- The loop of `/`. -/
def divideBy (result : d.Value) : List CText → CText
  | [] => d.toText result
  | b :: bs =>
      let q := d.convertToType b d.zero
      if d.eq q d.zero then "0.0".toList else divideBy (d.div result q) bs

def divide : List CText → CText
  | [] => []
  | a :: as =>
      let result := d.convertToType a d.zero
      if d.eq result d.zero then "0.0".toList else d.divideBy result as

/-- Two texts are compared as numbers if both are. -/
def compare (op : Comparison) (xOrig yOrig : CText) : Bool :=
  let x := d.convertToType xOrig d.notNumber
  let y := d.convertToType yOrig d.notNumber
  if d.eq x d.notNumber || d.eq y d.notNumber then
    match op with
    | .eq => xOrig = yOrig
    | .geq => ¬xOrig < yOrig
    | .leq => ¬yOrig < xOrig
    | .gt => yOrig < xOrig
    | .lt => xOrig < yOrig
  else
    match op with
    | .eq => d.eq x y
    | .geq => d.le y x
    | .leq => d.le x y
    | .gt => d.lt y x
    | .lt => d.lt x y

/-- The number of the first text for which the comparison holds. -/
def firstMatch (op : Comparison) : List CText → CText
  | [] => []
  | x :: ys =>
      match ys.findIdx? fun y => d.compare op x y with
      | some i => Nat.toDigits 10 (i + 1)
      | none => ['0']

/-- `??`. -/
def select (a : List CText) : Option CText :=
  match a with
  | [] => none
  | first :: _ =>
      let x := d.convertToType first d.notNumber
      if d.outOfRange x (a.length - 1) then a.getLast? else a[d.toIndex x]?

/-- `?`, with what is done if there is nothing for a condition that is not met. -/
def conditional (otherwise : Option CText) : List CText → Option CText
  | condition :: a₁ :: more =>
      if d.eq (d.convertToType condition d.zero) (d.ofRat 1) then some a₁
      else
        match more with
        | a₂ :: _ => some a₂
        | [] => otherwise
  | _ => none

def firstIndexText : CText := "<<1st index out of range>>".toList

def secondIndexText : CText := "<<2nd index out of range>>".toList

/-- `@:`. The length of an empty text minus one is the largest `size_t`. -/
def substring : List CText → Option CText
  | text :: first :: more =>
      let last := if text = [] then 2 ^ 64 - 1 else text.length - 1
      let x := d.convertToType first d.notNumber
      if d.outOfRange x last then some firstIndexText
      else
        match more with
        | [] =>
            if d.toIndex x = text.length then some []
            else (text[d.toIndex x]?).map fun c => cStr [c]
        | second :: _ =>
            let y := d.convertToType second d.notNumber
            if d.inRangeFrom x y last then
              if d.toIndex x ≤ text.length then
                some ((text.drop (d.toIndex x)).take (d.toEnd y - d.toIndex x))
              else none
            else if d.eq y (d.ofRat (-1)) then
              if d.toIndex x ≤ text.length then some (text.drop (d.toIndex x)) else none
            else some secondIndexText
  | _ => none

/-- `@`, of a variable. -/
def element (v : Variable) : List CText → Option CText
  | _ :: first :: more =>
      let x := d.convertToType first d.notNumber
      if d.outOfRange x v.value.length then some firstIndexText
      else
        match more with
        | [] => v.value[d.toIndex x]?
        | second :: _ =>
            let y := d.convertToType second d.notNumber
            if d.inRangeFrom x y v.value.length then elements (d.toIndex x) (d.toEnd y)
            else if d.eq y (d.ofRat (-1)) then elements (d.toIndex x) v.value.length
            else some secondIndexText
  | _ => none
where
  /-- The elements from `first` up to `last`, with blanks between them. -/
  elements (first last : ℕ) : Option CText :=
    ((List.range' first (max (last - first) 1)).mapM fun i => v.value[i]?).map
      fun texts => [' '].intercalate texts

end Doubles

/-! ### Signs -/

/-- The signs in front of a list, in the order in which they are looked for. -/
inductive Sign
  | concatenation
  | replacement
  | sum
  | difference
  | product
  | quotient
  | power
  | comparison (op : Comparison)
  | selection
  | subscription
  | element
  deriving DecidableEq

namespace Sign

def all : List Sign :=
  [concatenation, replacement, sum, difference, product, quotient, power, comparison .eq,
    comparison .geq, comparison .leq, comparison .gt, comparison .lt, selection, subscription,
    element]

def text : Sign → CText
  | concatenation => ['&']
  | replacement => ['<', '-', '>']
  | sum => ['+']
  | difference => ['-']
  | product => ['*']
  | quotient => ['/']
  | power => ['^']
  | comparison .eq => ['=', '=']
  | comparison .geq => ['>', '=']
  | comparison .leq => ['<', '=']
  | comparison .gt => ['>']
  | comparison .lt => ['<']
  | selection => ['?', '?']
  | subscription => ['@', ':']
  | element => ['@']

/-- A comparison is only looked for in at least two characters. -/
def leastLength : Sign → ℕ
  | comparison _ => 2
  | _ => 0

def expectedNumber : Sign → ℕ
  | concatenation => 1
  | replacement => 3
  | _ => 2

/-- The value of a list with the sign. There is none where the C++ program does not give one. -/
def apply (d : Doubles) (scope : Scope) (fuel : ℕ) (a : List CText) : Sign → Option CText
  | concatenation => some a.flatten
  | replacement =>
      match a with
      | text :: pattern :: new :: _ => runLoop (replaceStep pattern new) fuel text
      | _ => none
  | sum => some (d.calculate d.add a)
  | difference => some (d.calculate d.sub a)
  | product => some (d.calculate d.mul a)
  | quotient => some (d.divide a)
  | power => some (d.calculate d.pow a)
  | comparison op => some (d.firstMatch op a)
  | selection => d.select a
  | subscription => d.substring a
  | element =>
      let v := dbeGetVariable scope (a.headD [])
      if v.name = [] then some v.original else d.element v a

end Sign

def signOf (expr : CText) : Option Sign :=
  Sign.all.find? fun sign =>
    sign.text.isPrefixOf expr && decide (sign.leastLength ≤ expr.length)

/-! ### Expressions -/

/-- The variable that an expression names, at the end of `__DBE_expand`. -/
def variableText (scope : Scope) (expand : CText → Option CText) (expr : CText) : Option CText :=
  (dbeGetExprList expand expr 1).map fun a => (dbeGetVariable scope (a.headD [])).original

/-- The body of `__DBE_expand`. -/
def dbeExpandWith (d : Doubles) (scope : Scope) (fuel : ℕ) (expand : CText → Option CText)
    (expr : CText) : Option CText :=
  if expr.head? = some ':' then some (expr.drop 1)
  else
    match signOf expr with
    | some sign =>
        (dbeGetExprList expand (expr.drop sign.text.length) sign.expectedNumber).bind
          fun a => sign.apply d scope fuel a
    | none =>
        if expr.head? = some '?' then
          (dbeGetExprList expand (expr.drop 1) 2).bind fun a =>
            d.conditional (variableText scope expand expr) a
        else if expr.head? = some '!' then
          let v := dbeGetVariable scope (expr.drop 1)
          if v.name = [] then some v.original
          else (dbeGetExprList expand v.original 2).bind List.head?
        else variableText scope expand expr

/-- `__DBE_expand`. -/
def dbeExpand (d : Doubles) (scope : Scope) : ℕ → CText → Option CText
  | 0, _ => none
  | fuel + 1, expr => dbeExpandWith d scope fuel (dbeExpand d scope fuel) expr

/-- `__DBE_expand_string`. -/
def dbeExpandString (d : Doubles) (scope : Scope) (fuel : ℕ) (str : CText) : Option CText :=
  expandStringFrom (dbeExpand d scope fuel) 0 [] str

end Grvy.GetPot
