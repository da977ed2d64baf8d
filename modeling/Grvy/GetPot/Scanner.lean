import Grvy.Lib.PathText

/-!
How GetPot cuts an input file into tokens.

The stream is what is left of the file. White space and comments are skipped, and a token
goes up to the next blank. Quotes protect blanks, a backslash protects the character behind
it, and after `${` everything up to the matching bracket belongs to the token. Tokens around
a lone `=` are put together. Reading ends with the first token that is empty.
-/

namespace Grvy.GetPot

open Grvy.Lib

instance (t : CText) (args : List CText) : Decidable (t ∈ args) :=
  List.instDecidableMemOfLawfulBEq t args

/-- `isspace` of the C locale. -/
def isspace (c : Char) : Bool :=
  c = ' ' || c = '\t' || c = '\n' || c = Char.ofNat 11 || c = Char.ofNat 12 || c = Char.ofNat 13

/-- The characters that end a token. -/
def isBlank (c : Char) : Bool := c = ' ' || c = '\t' || c = '\n'

def nul : Char := Char.ofNat 0

def quote : Char := Char.ofNat 39

def backslash : Char := Char.ofNat 92

/-- `_comment_start`, which is one character long. -/
def commentStart : Char := '#'

def commentEnd : Char := '\n'

/-! ### White space and comments -/

mutual

/-- `__skip_whitespace`. -/
def skipWhitespace : CText → CText
  | [] => []
  | tmp :: istr =>
      if isspace tmp then skipWhitespace istr
      else if tmp ≠ commentStart then tmp :: istr
      else skipComment true istr

/-- A comment. The first character behind its start is read to see whether the start goes on,
and is not compared with the end. The end is put back, and is white space. -/
def skipComment (first : Bool) : CText → CText
  | [] => []
  | tmp :: istr =>
      if first then skipComment false istr
      else if tmp = commentEnd then skipWhitespace istr
      else skipComment false istr

end

/-! ### Tokens -/

/-- A character in front of what is read after it. -/
def prepend (c : Char) (r : CText × CText) : CText × CText := (c :: r.1, r.2)

mutual

/-- `__get_next_token`: the token and what is left of the stream. What is read in quotes and
brackets comes with the rest of the token behind it. -/
def getNextToken (lastLetter : Char) : CText → CText × CText
  | [] => ([], [])
  | tmp :: istr =>
      if isBlank tmp && lastLetter ≠ backslash then ([], istr)
      else if tmp = quote && lastLetter ≠ backslash then getString nul istr
      else if tmp = '{' && lastLetter = '$' then
        prepend '{' (getUntilClosingBracket 1 nul istr)
      else if tmp = '$' && lastLetter = backslash then prepend '$' (getNextToken nul istr)
      else if tmp = backslash && lastLetter ≠ backslash then getNextToken tmp istr
      else prepend tmp (getNextToken tmp istr)

/-- `__get_string`, up to the closing quote. -/
def getString (lastLetter : Char) : CText → CText × CText
  | [] => ([], [])
  | tmp :: istr =>
      if tmp = quote && lastLetter ≠ backslash then getNextToken quote istr
      else if tmp = backslash && lastLetter ≠ backslash then getString tmp istr
      else prepend tmp (getString tmp istr)

/-- `__get_until_closing_bracket`. -/
def getUntilClosingBracket (brackets : ℕ) (lastLetter : Char) : CText → CText × CText
  | [] => ([], [])
  | tmp :: istr =>
      if tmp = '{' && lastLetter = '$' then
        prepend tmp (getUntilClosingBracket (brackets + 1) tmp istr)
      else if tmp = '}' then
        if brackets = 1 then prepend '}' (getNextToken '{' istr)
        else prepend tmp (getUntilClosingBracket (brackets - 1) tmp istr)
      else prepend tmp (getUntilClosingBracket brackets tmp istr)

end

/-! ### What is consumed -/

theorem skipWhitespace_comment_le (istr : CText) :
    (skipWhitespace istr).length ≤ istr.length ∧
      ∀ first, (skipComment first istr).length ≤ istr.length := by
  induction istr with
  | nil => exact ⟨Nat.le_refl _, fun _ => Nat.le_refl _⟩
  | cons tmp istr ih =>
      obtain ⟨hblank, hcomment⟩ := ih
      constructor
      · rw [skipWhitespace]
        split
        · exact Nat.le_succ_of_le hblank
        · split
          · exact Nat.le_refl _
          · exact Nat.le_succ_of_le (hcomment true)
      · intro first
        rw [skipComment]
        split
        · exact Nat.le_succ_of_le (hcomment false)
        · split
          · exact Nat.le_succ_of_le hblank
          · exact Nat.le_succ_of_le (hcomment false)

theorem length_getNextToken_le (istr : CText) :
    (∀ last, (getNextToken last istr).2.length ≤ istr.length - 1) ∧
      (∀ last, (getString last istr).2.length ≤ istr.length - 1) ∧
      ∀ brackets last, (getUntilClosingBracket brackets last istr).2.length ≤ istr.length - 1 := by
  induction istr with
  | nil => exact ⟨fun _ => Nat.le_refl _, fun _ => Nat.le_refl _, fun _ _ => Nat.le_refl _⟩
  | cons tmp istr ih =>
      obtain ⟨htoken, hstring, hbracket⟩ := ih
      have hlt : istr.length - 1 ≤ (tmp :: istr).length - 1 := by
        rw [List.length_cons]
        omega
      refine ⟨fun last => ?_, fun last => ?_, fun brackets last => ?_⟩
      · rw [getNextToken]
        split
        · exact Nat.le_refl _
        · split
          · exact (hstring _).trans hlt
          · split
            · exact (hbracket _ _).trans hlt
            · split
              · exact (htoken _).trans hlt
              · split
                · exact (htoken _).trans hlt
                · exact (htoken _).trans hlt
      · rw [getString]
        split
        · exact (htoken _).trans hlt
        · split
          · exact (hstring _).trans hlt
          · exact (hstring _).trans hlt
      · rw [getUntilClosingBracket]
        split
        · exact (hbracket _ _).trans hlt
        · split
          · split
            · exact (htoken _).trans hlt
            · exact (hbracket _ _).trans hlt
          · exact (hbracket _ _).trans hlt

/-! ### Arguments -/

/-- A token that ends the reading: it is empty, or begins with the character that a `char`
cannot tell from `EOF`. -/
def isEnd (token : CText) : Bool := token = [] || token.head? = some (Char.ofNat 255)

/-- The loop of `__read_in_stream`. -/
def bruteTokens (istr : CText) : List CText :=
  let r := getNextToken nul (skipWhitespace istr)
  if _h : isEnd r.1 = true then [] else r.1 :: bruteTokens r.2
termination_by istr.length
decreasing_by
  have hle := (length_getNextToken_le (skipWhitespace istr)).1 nul
  have hskip := (skipWhitespace_comment_le istr).1
  have hpos : skipWhitespace istr ≠ [] := by
    intro hnil
    have hend : ¬isEnd (getNextToken nul (skipWhitespace istr)).1 = true := _h
    rw [hnil] at hend
    exact hend rfl
  have hlength := List.length_pos_iff.mpr hpos
  omega

/-- Expressions of three tokens with an `=` in the middle become one. -/
def joinAssignments : List CText → List CText
  | [] => []
  | [token1] => [token1]
  | [token1, token2] =>
      if token2 = ['='] then [token1 ++ token2] else [token1, token2]
  | token1 :: token2 :: token3 :: tokens =>
      if token2 = ['='] then (token1 ++ token2 ++ token3) :: joinAssignments tokens
      else token1 :: joinAssignments (token2 :: token3 :: tokens)

/-- `__read_in_stream`. -/
def readInStream (istr : CText) : List CText := joinAssignments (bruteTokens istr)

end Grvy.GetPot
