import Grvy.GetPot.Scanner

/-!
Which tokens a file can be cut into.

Every text can be written in quotes, with backslashes in front of quotes and runs of
backslashes, except that a closing quote behind a backslash does not close. So the tokens
of files are all lists of texts that are not empty and of which only the last may end in a
backslash.
-/

namespace Grvy.GetPot

open Grvy.Lib

variable {last d : Char} {istr w v : CText}

/-! ### Words -/

/-- A character that stands for itself. -/
def isPlain (c : Char) : Bool := !isBlank c && c ≠ quote && c ≠ backslash && c ≠ '$'

theorem isPlain_iff {c : Char} :
    isPlain c = true ↔ isBlank c = false ∧ c ≠ quote ∧ c ≠ backslash ∧ c ≠ '$' := by
  simp [isPlain, and_assoc]

@[simp] theorem prepend_mk (c : Char) (t r : CText) : prepend c (t, r) = (c :: t, r) := rfl

theorem getNextToken_blank (hd : isBlank d = true) (hlast : last ≠ backslash) :
    getNextToken last (d :: istr) = ([], istr) := by
  simp [getNextToken, hd, hlast]

theorem getNextToken_quote (hlast : last ≠ backslash) :
    getNextToken last (quote :: istr) = getString nul istr := by
  have hblank : isBlank quote = false := by decide
  simp [getNextToken, hblank, hlast]

theorem getNextToken_cons_plain {c : Char} (hc : isPlain c = true) (hdollar : last ≠ '$') :
    getNextToken last (c :: istr) = prepend c (getNextToken c istr) := by
  obtain ⟨hblank, hquote, hback, hplain⟩ := isPlain_iff.mp hc
  simp [getNextToken, hblank, hquote, hback, hplain, hdollar]

/-- A word of plain characters is read up to the next blank. -/
theorem getNextToken_word (hw : ∀ c ∈ w, isPlain c = true) (hlast : last ≠ backslash)
    (hdollar : last ≠ '$') (hd : isBlank d = true) :
    getNextToken last (w ++ d :: istr) = (w, istr) := by
  induction w generalizing last with
  | nil => exact getNextToken_blank hd hlast
  | cons c w ih =>
      have hc := hw c List.mem_cons_self
      obtain ⟨-, -, hback, hplain⟩ := isPlain_iff.mp hc
      rw [List.cons_append, getNextToken_cons_plain hc hdollar,
        ih (fun x hx => hw x (List.mem_cons_of_mem c hx)) hback hplain, prepend_mk]

/-! ### Quoting -/

/-- A text as it is written between quotes; `after` says that it comes behind a backslash. -/
def escape (after : Bool) : CText → CText
  | [] => []
  | c :: v =>
      if c = backslash then
        if after then c :: escape true v else backslash :: c :: escape true v
      else if c = quote then
        if after then c :: escape false v else backslash :: c :: escape false v
      else c :: escape false v

def quoted (v : CText) : CText := quote :: escape false v ++ [quote]

theorem quoted_append (v istr : CText) :
    quoted v ++ istr = quote :: (escape false v ++ quote :: istr) := by
  simp [quoted]

/-- The character is read behind a backslash and stands for itself. -/
@[simp] theorem getString_escaped (c : Char) :
    getString backslash (c :: istr) = prepend c (getString c istr) := by
  simp [getString]

theorem getString_backslash (hlast : last ≠ backslash) :
    getString last (backslash :: istr) = getString backslash istr := by
  have hne : backslash ≠ quote := by decide
  simp [getString, hne, hlast]

theorem getString_other {c : Char} (hquote : c ≠ quote) (hback : c ≠ backslash) :
    getString last (c :: istr) = prepend c (getString c istr) := by
  simp [getString, hquote, hback]

/-- What is read of an escaped text is the text, whatever comes behind it. -/
theorem getString_escape (last : Char) (v istr : CText) :
    getString last (escape (last = backslash) v ++ istr) =
      (v ++ (getString (v.getLast?.getD last) istr).1,
        (getString (v.getLast?.getD last) istr).2) := by
  induction v generalizing last with
  | nil => rfl
  | cons c v ih =>
      have hrest := ih c
      have hlast : (c :: v).getLast?.getD last = v.getLast?.getD c := by
        rw [List.getLast?_cons, Option.getD_some]
      rw [hlast, escape]
      by_cases hback : c = backslash
      · subst hback
        rw [decide_eq_true rfl] at hrest
        rw [if_pos rfl]
        by_cases hafter : last = backslash
        · subst hafter
          rw [if_pos (decide_eq_true rfl), List.cons_append, getString_escaped, hrest]
          rfl
        · rw [if_neg (by simpa using hafter), List.cons_append, getString_backslash hafter,
            List.cons_append, getString_escaped, hrest]
          rfl
      · rw [decide_eq_false hback] at hrest
        rw [if_neg hback]
        by_cases hquote : c = quote
        · rw [if_pos hquote]
          by_cases hafter : last = backslash
          · subst hafter
            rw [if_pos (decide_eq_true rfl), List.cons_append, getString_escaped, hrest]
            rfl
          · rw [if_neg (by simpa using hafter), List.cons_append, getString_backslash hafter,
              List.cons_append, getString_escaped, hrest]
            rfl
        · rw [if_neg hquote, List.cons_append, getString_other hquote hback, hrest]
          rfl

/-- A quoted text in front of a blank is one token, if the closing quote closes. -/
theorem getNextToken_quoted (hv : v.getLast? ≠ some backslash) (hlast : last ≠ backslash)
    (hd : isBlank d = true) :
    getNextToken last (quoted v ++ d :: istr) = (v, istr) := by
  have hnul : nul ≠ backslash := by decide
  have hend : v.getLast?.getD nul ≠ backslash := by
    cases hlast : v.getLast? with
    | none => exact hnul
    | some c =>
        rw [hlast] at hv
        exact fun heq => hv (congrArg some heq)
  have hclose : getString (v.getLast?.getD nul) (quote :: d :: istr) = ([], istr) := by
    have hblank : getNextToken quote (d :: istr) = ([], istr) := getNextToken_blank hd (by decide)
    simp [getString, hend, hblank]
  have hescape := getString_escape nul v (quote :: d :: istr)
  rw [decide_eq_false hnul, hclose] at hescape
  rw [quoted_append, getNextToken_quote hlast, hescape, List.append_nil]

/-- At the end of the file the closing quote can be left out. -/
theorem getNextToken_unclosed (hlast : last ≠ backslash) (v : CText) :
    getNextToken last (quote :: escape false v) = (v, []) := by
  have hescape := getString_escape nul v []
  rw [decide_eq_false (by decide : nul ≠ backslash), List.append_nil] at hescape
  rw [getNextToken_quote hlast, hescape]
  simp [getString]

/-! ### Where a token can end in a backslash -/

/-- What ends before the stream does has no backslash at its end. Here `p` is the character
in front of what is read, which is a backslash only if it has been read last. -/
theorem getLast_ne_backslash (istr : CText) :
    (∀ p last, (p = backslash → last = backslash) → (getNextToken last istr).2 ≠ [] →
        (p :: (getNextToken last istr).1).getLast? ≠ some backslash) ∧
      (∀ p last, (p = backslash → last = backslash) → (getString last istr).2 ≠ [] →
        (p :: (getString last istr).1).getLast? ≠ some backslash) ∧
      ∀ brackets p last, (getUntilClosingBracket brackets last istr).2 ≠ [] →
        (p :: (getUntilClosingBracket brackets last istr).1).getLast? ≠ some backslash := by
  induction istr with
  | nil =>
      exact ⟨fun _ _ _ h => absurd rfl h, fun _ _ _ h => absurd rfl h,
        fun _ _ _ h => absurd rfl h⟩
  | cons tmp istr ih =>
      obtain ⟨htoken, hstring, hbracket⟩ := ih
      refine ⟨fun p last hp => ?_, fun p last hp => ?_, fun brackets p last => ?_⟩
      · rw [getNextToken]
        split
        · next hblank =>
            have hlast : last ≠ backslash := by simpa using (Bool.and_eq_true_iff.mp hblank).2
            intro _ hend
            exact hlast (hp (by simpa using hend))
        · split
          · next hquote =>
              have hlast : last ≠ backslash := by simpa using (Bool.and_eq_true_iff.mp hquote).2
              exact hstring p nul fun heq => absurd (hp heq) hlast
          · split
            · rw [prepend, List.getLast?_cons_cons]
              exact hbracket 1 '{' nul
            · split
              · rw [prepend, List.getLast?_cons_cons]
                exact htoken '$' nul fun heq => absurd heq (by decide)
              · split
                · next hback =>
                    have htmp : tmp = backslash := by simpa using (Bool.and_eq_true_iff.mp hback).1
                    exact htoken p tmp fun _ => htmp
                · rw [prepend, List.getLast?_cons_cons]
                  exact htoken tmp tmp id
      · rw [getString]
        split
        · next hquote =>
            have hlast : last ≠ backslash := by simpa using (Bool.and_eq_true_iff.mp hquote).2
            exact htoken p quote fun heq => absurd (hp heq) hlast
        · split
          · next hback =>
              have htmp : tmp = backslash := by simpa using (Bool.and_eq_true_iff.mp hback).1
              exact hstring p tmp fun _ => htmp
          · rw [prepend, List.getLast?_cons_cons]
            exact hstring tmp tmp id
      · rw [getUntilClosingBracket]
        split
        · rw [prepend, List.getLast?_cons_cons]
          exact hbracket (brackets + 1) tmp tmp
        · split
          · split
            · rw [prepend, List.getLast?_cons_cons]
              exact htoken '}' '{' fun heq => absurd heq (by decide)
            · rw [prepend, List.getLast?_cons_cons]
              exact hbracket (brackets - 1) tmp tmp
          · rw [prepend, List.getLast?_cons_cons]
            exact hbracket brackets tmp tmp

/-! ### The tokens of files -/

theorem bruteTokens_cons {t rest : CText} (h : getNextToken nul (skipWhitespace istr) = (t, rest))
    (ht : isEnd t = false) : bruteTokens istr = t :: bruteTokens rest := by
  rw [bruteTokens, dif_neg]
  · rw [h]
  · rw [h]
    simpa using ht

theorem bruteTokens_end {t rest : CText} (h : getNextToken nul (skipWhitespace istr) = (t, rest))
    (ht : isEnd t = true) : bruteTokens istr = [] := by
  rw [bruteTokens, dif_pos]
  rw [h]
  exact ht

@[simp] theorem bruteTokens_nil : bruteTokens [] = [] := bruteTokens_end rfl rfl

@[simp] theorem skipWhitespace_quote : skipWhitespace (quote :: istr) = quote :: istr := by
  have hspace : isspace quote = false := by decide
  have hcomment : quote ≠ commentStart := by decide
  simp [skipWhitespace, hspace, hcomment]

/-- Texts as they are written one in each line, the last one without a closing quote. -/
def writeTokens : List CText → CText
  | [] => []
  | [t] => quote :: escape false t
  | t :: t' :: ts => quoted t ++ '\n' :: writeTokens (t' :: ts)

/-- What a file can be cut into: none is empty, and only the last one ends in a backslash. -/
structure AreTokens (tokens : List CText) : Prop where
  notEnd : ∀ t ∈ tokens, isEnd t = false
  backslash : ∀ t ∈ tokens.dropLast, t.getLast? ≠ some backslash

theorem areTokens_bruteTokens (istr : CText) : AreTokens (bruteTokens istr) := by
  fun_induction bruteTokens istr with
  | case1 istr r h =>
      exact ⟨fun _ ht => by simp at ht, fun _ ht => by simp at ht⟩
  | case2 istr r h ih =>
      refine ⟨?_, fun t ht => ?_⟩
      · intro t ht
        rcases List.mem_cons.mp ht with rfl | ht
        · simpa using h
        · exact ih.notEnd t ht
      · -- what is followed by another token has not been ended by the end of the file
        have hne : bruteTokens r.2 ≠ [] := by
          intro hnil
          simp [hnil] at ht
        rw [List.dropLast_cons_of_ne_nil hne] at ht
        rcases List.mem_cons.mp ht with rfl | ht
        · have hrest : r.2 ≠ [] := fun hnil => hne (by rw [hnil, bruteTokens_nil])
          have hlast := (getLast_ne_backslash (skipWhitespace istr)).1 nul nul id hrest
          intro hback
          rw [List.getLast?_cons, hback] at hlast
          exact hlast rfl
        · exact ih.backslash t ht

theorem bruteTokens_writeTokens {tokens : List CText} (h : AreTokens tokens) :
    bruteTokens (writeTokens tokens) = tokens := by
  have hnul : nul ≠ backslash := by decide
  induction tokens with
  | nil => exact bruteTokens_nil
  | cons t ts ih =>
      have ht := h.notEnd t List.mem_cons_self
      cases ts with
      | nil =>
          have hread := getNextToken_unclosed hnul t
          simp [writeTokens, bruteTokens_cons (by rw [skipWhitespace_quote]; exact hread) ht]
      | cons t' ts =>
          have hlast := h.backslash t List.mem_cons_self
          have hrest : AreTokens (t' :: ts) :=
            ⟨fun x hx => h.notEnd x (List.mem_cons_of_mem t hx),
              fun x hx => h.backslash x (List.mem_cons_of_mem t hx)⟩
          have hread : getNextToken nul (skipWhitespace (quoted t ++ '\n' ::
              writeTokens (t' :: ts))) = (t, writeTokens (t' :: ts)) := by
            rw [quoted_append, skipWhitespace_quote, ← quoted_append]
            exact getNextToken_quoted hlast hnul rfl
          rw [writeTokens, bruteTokens_cons hread ht, ih hrest]

/-- A list of texts is what some file is cut into if and only if none of them is empty or
begins with the character that looks like `EOF`, and none but the last ends in a
backslash. -/
theorem exists_bruteTokens_iff (tokens : List CText) :
    (∃ istr, bruteTokens istr = tokens) ↔ AreTokens tokens := by
  constructor
  · rintro ⟨istr, rfl⟩
    exact areTokens_bruteTokens istr
  · exact fun h => ⟨writeTokens tokens, bruteTokens_writeTokens h⟩

end Grvy.GetPot
