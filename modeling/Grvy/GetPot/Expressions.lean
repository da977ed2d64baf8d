import Mathlib.Data.Bool.AllAny
import Grvy.GetPot.Brackets

/-!
What dollar bracket expressions mean.

Text without brackets stays as it is, and a bracket that is not closed takes the rest of the
text with it. Nested expressions have the values of expression trees, as long as the values
inside of brackets are words: a blank or a bracket in such a value is read as if it had been
written there. Texts are replaced until the pattern is gone, which may be never.
-/

namespace Grvy.GetPot

open Grvy.Lib

variable {d : Doubles} {scope : Scope} {expand : CText → Option CText}

/-! ### Replacing a text -/

section Replacement

variable {pattern replacement text text' : CText}

theorem replaceStep_inl (h : replaceStep pattern replacement text = .inl text') :
    ∃ before after, text = before ++ pattern ++ after ∧ text' = before ++ replacement ++ after := by
  rw [replaceStep] at h
  split at h
  · cases h
  · next i hi =>
      have hprefix := List.find?_some hi
      obtain ⟨after, hafter⟩ := List.isPrefixOf_iff_prefix.mp hprefix
      refine ⟨text.take i, after, ?_, ?_⟩
      · rw [List.append_assoc, hafter, List.take_append_drop]
      · rw [← Sum.inl.inj h, ← List.drop_drop, ← hafter, List.drop_left]

theorem replaceStep_inr_iff : replaceStep pattern replacement text = .inr text' ↔
    ¬pattern <:+: text ∧ text' = text := by
  rw [replaceStep]
  split
  · next hnone =>
      rw [List.find?_eq_none] at hnone
      constructor
      · intro h
        refine ⟨?_, (Sum.inr.inj h).symm⟩
        rintro ⟨before, after, rfl⟩
        refine hnone before.length ?_ (List.isPrefixOf_iff_prefix.mpr ⟨after, ?_⟩)
        · rw [List.mem_range, List.length_append, List.length_append]
          omega
        · rw [List.append_assoc, List.drop_left]
      · rintro ⟨-, rfl⟩
        rfl
  · next i hi =>
      have hprefix := List.find?_some hi
      refine iff_of_false Sum.inl_ne_inr fun h => h.1 ?_
      exact (List.isPrefixOf_iff_prefix.mp hprefix).isInfix.trans (List.drop_suffix i text).isInfix

/-- The text that is left has no pattern in it. If the replacement is shorter than the pattern
or has the pattern in it, the loop ends unless both the text and the replacement have the
pattern in them. -/
theorem replacement_spec (pattern replacement text : CText) :
    (∀ v, Leaves (replaceStep pattern replacement) text v → ¬pattern <:+: v) ∧
      (replacement.length < pattern.length ∨ pattern <:+: replacement →
        ((∃ v, Leaves (replaceStep pattern replacement) text v) ↔
          ¬(pattern <:+: text ∧ pattern <:+: replacement))) := by
  refine ⟨fun v hv => ?_, fun hcase => ⟨?_, fun hends => ?_⟩⟩
  · refine hv.of_inr (P := fun v => ¬pattern <:+: v) fun s a hs => ?_
    obtain ⟨hnot, rfl⟩ := replaceStep_inr_iff.mp hs
    exact hnot
  · -- a replacement with the pattern in it brings the pattern back in every round
    rintro ⟨v, hv⟩ ⟨htext, hin⟩
    refine not_leaves (I := fun s => pattern <:+: s) (fun s hs => ?_) htext v hv
    cases hstep : replaceStep pattern replacement s with
    | inl s' =>
        obtain ⟨before, after, -, rfl⟩ := replaceStep_inl hstep
        exact ⟨_, rfl, hin.trans ⟨before, after, rfl⟩⟩
    | inr a => exact absurd hs (replaceStep_inr_iff.mp hstep).1
  · by_cases htext : pattern <:+: text
    · have hshort := hcase.resolve_right fun hin => hends ⟨htext, hin⟩
      refine exists_leaves List.length (fun s s' hs => ?_) text
      obtain ⟨before, after, rfl, rfl⟩ := replaceStep_inl hs
      simp only [List.length_append]
      omega
    · exact ⟨text, leaves_of_inr (replaceStep_inr_iff.mpr ⟨htext, rfl⟩)⟩

end Replacement

/-! ### Text outside of brackets -/

/-- A text in which no bracket opens. -/
def IsText (t : CText) : Prop := ¬['$', '{'] <:+: t

instance (t : CText) : Decidable (IsText t) := inferInstanceAs (Decidable ¬['$', '{'] <:+: t)

theorem IsText.tail {c : Char} {t : CText} (h : IsText (c :: t)) : IsText t :=
  fun hin => h (hin.trans (List.suffix_cons c t).isInfix)

/-- A character with which no bracket opens. -/
theorem expandStringFrom_cons {c : Char} {str : CText} (h : c = '$' → str.head? ≠ some '{') :
    expandStringFrom expand 0 [] (c :: str) =
      (expandStringFrom expand 0 [] str).map (c :: ·) := by
  rw [expandStringFrom]
  · rw [if_pos rfl]
  · intro x str' hc hstr
    exact h hc (by rw [hstr, List.head?_cons])

theorem expandStringFrom_text {t str : CText} (ht : IsText t)
    (hstr : t.getLast? = some '$' → str.head? ≠ some '{') :
    expandStringFrom expand 0 [] (t ++ str) =
      (expandStringFrom expand 0 [] str).map (t ++ ·) := by
  induction t with
  | nil => exact Option.map_id'.symm
  | cons c t ih =>
      have hc : c = '$' → (t ++ str).head? ≠ some '{' := by
        rintro rfl hhead
        cases t with
        | nil => exact hstr rfl hhead
        | cons x t =>
            obtain rfl : x = '{' := Option.some.inj hhead
            exact ht ⟨[], t, rfl⟩
      have hlast : t.getLast? = some '$' → str.head? ≠ some '{' := by
        intro h
        refine hstr ?_
        rw [List.getLast?_cons, h, Option.getD_some]
      rw [List.cons_append, expandStringFrom_cons hc, ih ht.tail hlast, Option.map_map]
      rfl

/-- Text without brackets is its own value, whatever fuel there is. -/
theorem dbeExpandString_eq_self {t : CText} (ht : IsText t) (fuel : ℕ) :
    dbeExpandString d scope fuel t = some t := by
  have h : expandStringFrom (dbeExpand d scope fuel) 0 [] (t ++ []) =
      (expandStringFrom (dbeExpand d scope fuel) 0 [] []).map (t ++ ·) :=
    expandStringFrom_text ht fun _ => nofun
  rw [List.append_nil] at h
  rw [dbeExpandString, h]
  simp [expandStringFrom]

/-- Without a closing bracket there is nothing any more. -/
theorem expandStringFrom_unclosed {n : ℕ} {expr str : CText} (hn : n ≠ 0) (hstr : '}' ∉ str) :
    expandStringFrom expand n expr str = some [] := by
  fun_induction expandStringFrom expand n expr str with
  | case1 => rfl
  | case2 => exact absurd rfl hn
  | case3 n expr c str _ ih => exact ih (by omega) fun h => hstr (by simp_all)
  | case4 => exact absurd rfl hn
  | case5 => simp at hstr
  | case6 => simp at hstr
  | case7 n expr c str _ _ _ ih => exact ih hn fun h => hstr (List.mem_cons_of_mem c h)

/-- What comes behind a bracket that is not closed is lost. -/
theorem dbeExpandString_unclosed {t str : CText} {c : Char} (ht : IsText t)
    (hstr : '}' ∉ c :: str) (fuel : ℕ) :
    dbeExpandString d scope fuel (t ++ '$' :: '{' :: c :: str) = some t := by
  rw [dbeExpandString, expandStringFrom_text ht (by simp), expandStringFrom, if_pos rfl,
    expandStringFrom_unclosed Nat.one_ne_zero hstr, Option.map_some, List.append_nil]

/-! ### Expression trees -/

/-- A text that is read as it is wherever it stands in an expression. -/
def IsWord (w : CText) : Prop := w ≠ [] ∧ ∀ c ∈ w, isspace c = false ∧ c ≠ '$' ∧ c ≠ '}'

instance (w : CText) : Decidable (IsWord w) :=
  decidable_of_iff
    (w ≠ [] ∧ w.all (fun c => isspace c = false ∧ c ≠ '$' ∧ c ≠ '}') = true)
    (and_congr_right' List.all_iff_forall_prop)

/-- The characters that signs begin with. -/
def signStarts : List Char :=
  [':', '&', '<', '+', '-', '*', '/', '^', '=', '>', '?', '!', '@']

/-- What is in front of a list: a sign, or the question mark of `${? }`. -/
inductive Head
  | sign (s : Sign)
  | condition

def Head.text : Head → CText
  | sign s => s.text
  | condition => ['?']

/-- The value of a list. A condition has one if there is something for each case. -/
def Head.HasValue (d : Doubles) (scope : Scope) : Head → List CText → CText → Prop
  | sign s, vs, v => Settles (fun n => s.apply d scope n (padTo s.expectedNumber vs)) v
  | condition, vs, v =>
      ∃ test yes no more, vs = test :: yes :: no :: more ∧
        v = if d.eq (d.convertToType test d.zero) (d.ofRat 1) then yes else no

/-- An expression. The name of a variable does not begin like a sign. -/
inductive Expr
  | word (w : { w : CText // IsWord w })
  | var (name : { w : CText // IsWord w ∧ ∀ c ∈ w.head?, c ∉ signStarts })
  | list (head : Head) (first : Expr) (more : List Expr)

/-- Arguments with a blank in front of each. -/
def argsText (args : List CText) : CText := args.flatMap fun arg => ' ' :: arg

mutual

/-- An expression as it is written. -/
def Expr.text : Expr → CText
  | .word w => w.val
  | .var name => '$' :: '{' :: (name.val ++ ['}'])
  | .list head first more =>
      '$' :: '{' :: (head.text ++ argsText (first.text :: textsOf more) ++ ['}'])

def textsOf : List Expr → List CText
  | [] => []
  | e :: es => e.text :: textsOf es

end

section Values

variable (d : Doubles) (scope : Scope)

mutual

/-- The value of an expression in brackets: what is in a list has to be words. -/
def Expr.HasValue : Expr → CText → Prop
  | .word w, v => v = w.val
  | .var name, v => v = (dbeGetVariable scope name.val).original
  | .list head first more, v =>
      ∃ v₁ vs, first.HasValue v₁ ∧ HaveValues more vs ∧ (∀ x ∈ v₁ :: vs, IsWord x) ∧
        head.HasValue d scope (v₁ :: vs) v

def HaveValues : List Expr → List CText → Prop
  | [], vs => vs = []
  | e :: es, vs => ∃ v vs', vs = v :: vs' ∧ e.HasValue v ∧ HaveValues es vs'

end

/-- The value of an expression that is in no brackets: what is in its list can be any text. -/
def Expr.HasTopValue : Expr → CText → Prop
  | .list head first more, v =>
      ∃ v₁ vs, first.HasValue d scope v₁ ∧ HaveValues d scope more vs ∧
        head.HasValue d scope (v₁ :: vs) v
  | e, v => e.HasValue d scope v

end Values

/-! ### Where brackets close -/

/-- The brackets in `raw` are balanced. -/
def Balanced (raw : CText) : Prop :=
  ∀ (expand : CText → Option CText) (n : ℕ) (expr str : CText), str ≠ [] →
    expandStringFrom expand (n + 1) expr (raw ++ str) =
      expandStringFrom expand (n + 1) (expr ++ raw) str

theorem balanced_nil : Balanced [] := by
  intro expand n expr str _
  rw [List.nil_append, List.append_nil]

theorem Balanced.append {raw raw' : CText} (h : Balanced raw) (h' : Balanced raw') :
    Balanced (raw ++ raw') := by
  intro expand n expr str hstr
  rw [List.append_assoc, h expand n expr _ (by simp [hstr]), h' expand n _ str hstr,
    List.append_assoc]

theorem balanced_letter {c : Char} (hopen : c ≠ '$') (hclose : c ≠ '}') : Balanced [c] := by
  intro expand n expr str _
  rw [List.singleton_append, expandStringFrom]
  · simp [hclose]
  · exact fun _ _ h => absurd h hopen

theorem balanced_letters {w : CText} (hw : ∀ c ∈ w, c ≠ '$' ∧ c ≠ '}') : Balanced w := by
  induction w with
  | nil => exact balanced_nil
  | cons c w ih =>
      obtain ⟨hopen, hclose⟩ := hw c List.mem_cons_self
      exact (balanced_letter hopen hclose).append
        (ih fun x hx => hw x (List.mem_cons_of_mem c hx))

theorem balanced_bracket {raw : CText} (h : Balanced raw) :
    Balanced ('$' :: '{' :: (raw ++ ['}'])) := by
  intro expand n expr str hstr
  obtain ⟨c, rest, hrest⟩ := List.exists_cons_of_ne_nil (l := raw ++ '}' :: str) (by simp)
  have hopen : '$' :: '{' :: (raw ++ ['}']) ++ str = '$' :: '{' :: c :: rest := by
    rw [← hrest]
    simp
  rw [hopen, expandStringFrom, if_neg (Nat.succ_ne_zero n), ← hrest,
    h expand (n + 1) _ _ (by simp), expandStringFrom]
  · simp
  · exact fun _ _ h => absurd h (by decide)

theorem IsWord.balanced {w : CText} (hw : IsWord w) : Balanced w :=
  balanced_letters fun c hc => (hw.2 c hc).2

theorem Sign.mem_all (s : Sign) : s ∈ Sign.all := by
  cases s with
  | comparison op => cases op <;> decide
  | _ => decide

theorem Head.of_mem_text (head : Head) :
    ∀ c ∈ head.text, isspace c = false ∧ c ≠ '$' ∧ c ≠ '}' := by
  cases head with
  | sign s =>
      have hall : ∀ s ∈ Sign.all,
          s.text.all (fun c => isspace c = false ∧ c ≠ '$' ∧ c ≠ '}') = true := by decide
      exact List.all_iff_forall_prop.mp (hall s s.mem_all)
  | condition => exact List.all_iff_forall_prop.mp (by decide)

theorem balanced_argsText {args : List CText} (h : ∀ arg ∈ args, Balanced arg) :
    Balanced (argsText args) := by
  induction args with
  | nil => exact balanced_nil
  | cons arg args ih =>
      have hrest := ih fun x hx => h x (List.mem_cons_of_mem arg hx)
      have hblank : Balanced [' '] := balanced_letter (by decide) (by decide)
      exact (hblank.append (h arg List.mem_cons_self)).append hrest

mutual

/-- The brackets of what is written for an expression are balanced. -/
theorem Expr.balanced : (e : Expr) → Balanced e.text
  | .word w => w.property.balanced
  | .var name => balanced_bracket name.property.1.balanced
  | .list head first more => by
      have hhead : Balanced head.text :=
        balanced_letters fun c hc => (head.of_mem_text c hc).2
      refine balanced_bracket (hhead.append (balanced_argsText ?_))
      intro arg harg
      rcases List.mem_cons.mp harg with rfl | harg
      · exact first.balanced
      · exact balanced_textsOf more arg harg

theorem balanced_textsOf : (es : List Expr) → ∀ arg ∈ textsOf es, Balanced arg
  | [] => fun _ h => absurd h List.not_mem_nil
  | e :: es => fun arg harg => by
      rcases List.mem_cons.mp harg with rfl | harg
      · exact e.balanced
      · exact balanced_textsOf es arg harg

end

/-- A bracket outside of brackets is replaced by its value. -/
theorem expandStringFrom_bracket {raw : CText} (h : Balanced raw) (str : CText) :
    expandStringFrom expand 0 [] ('$' :: '{' :: (raw ++ '}' :: str)) =
      (expand raw).bind fun v => (expandStringFrom expand 0 [] str).map (v ++ ·) := by
  obtain ⟨c, rest, hrest⟩ := List.exists_cons_of_ne_nil (l := raw ++ '}' :: str) (by simp)
  rw [hrest, expandStringFrom, if_pos rfl, ← hrest, h expand 0 [] _ (by simp), expandStringFrom]
  · simp
  · exact fun _ _ h => absurd h (by decide)

/-! ### Reading an expression -/

section Scanning

variable {outer : List CText} {before current str : CText}

theorem exprListFrom_close :
    exprListFrom expand false (before :: outer) current ('}' :: str) =
      (expand current).bind fun v => exprListFrom expand false outer (before ++ v) str := by
  rw [exprListFrom]
  · simp
  · exact fun _ h => absurd h (by decide)

theorem exprListFrom_letter {c : Char} (hdollar : c ≠ '$')
    (hblank : outer = [] → isspace c = false) (hclose : outer ≠ [] → c ≠ '}') :
    exprListFrom expand false outer current (c :: str) =
      exprListFrom expand false outer (current ++ [c]) str := by
  have hopen : ∀ rest, c = '$' → str = '{' :: rest → False := fun _ h => absurd h hdollar
  cases outer with
  | nil =>
      rw [exprListFrom]
      · simp [hblank rfl]
      · exact hopen
  | cons before outer =>
      rw [exprListFrom]
      · simp [hclose (List.cons_ne_nil before outer)]
      · exact hopen

theorem exprListFrom_blank :
    exprListFrom expand false [] current (' ' :: str) =
      (exprListFrom expand true [] [] str).map (current :: ·) := by
  rw [exprListFrom]
  · simp [isspace]
  · exact fun _ h => absurd h (by decide)

/-- Behind a blank an expression begins as it does anywhere. -/
theorem exprListFrom_between {c : Char} (hc : isspace c = false) :
    exprListFrom expand true [] [] (c :: str) = exprListFrom expand false [] [] (c :: str) := by
  by_cases hopen : c = '$' ∧ str.head? = some '{'
  · obtain ⟨rfl, hhead⟩ := hopen
    cases str with
    | nil => cases hhead
    | cons x str =>
        obtain rfl : x = '{' := Option.some.inj hhead
        rfl
  · have hno : ∀ rest, c = '$' → str = '{' :: rest → False := fun rest hdollar hstr =>
      hopen ⟨hdollar, by rw [hstr, List.head?_cons]⟩
    have hletter : ∀ between, exprListFrom expand between [] [] (c :: str) =
        exprListFrom expand false [] [c] str := by
      intro between
      rw [exprListFrom]
      · simp [hc]
      · exact hno
    rw [hletter true, hletter false]

/-- Reading the text of an expression puts its value behind what has been read. -/
structure Scans (expand : CText → Option CText) (text value : CText) : Prop where
  start : ∃ c rest, text = c :: rest ∧ isspace c = false
  scan : ∀ outer current str, exprListFrom expand false outer current (text ++ str) =
    exprListFrom expand false outer (current ++ value) str

/-- The same inside of brackets, where blanks are letters. -/
def ScansInside (expand : CText → Option CText) (text value : CText) : Prop :=
  ∀ before outer current str, exprListFrom expand false (before :: outer) current (text ++ str) =
    exprListFrom expand false (before :: outer) (current ++ value) str

theorem Scans.inside {text value : CText} (h : Scans expand text value) :
    ScansInside expand text value := fun before outer => h.scan (before :: outer)

theorem scansInside_nil : ScansInside expand [] [] := by
  intro before outer current str
  rw [List.nil_append, List.append_nil]

theorem ScansInside.append {text text' value value' : CText} (h : ScansInside expand text value)
    (h' : ScansInside expand text' value') :
    ScansInside expand (text ++ text') (value ++ value') := by
  intro before outer current str
  rw [List.append_assoc, h, h', List.append_assoc]

theorem scansInside_letters {w : CText} (hw : ∀ c ∈ w, c ≠ '$' ∧ c ≠ '}') :
    ScansInside expand w w := by
  induction w with
  | nil => exact scansInside_nil
  | cons c w ih =>
      obtain ⟨hdollar, hclose⟩ := hw c List.mem_cons_self
      have hletter : ScansInside expand [c] [c] := fun before outer current str =>
        exprListFrom_letter hdollar (fun h => absurd h (List.cons_ne_nil before outer))
          fun _ => hclose
      exact hletter.append (ih fun x hx => hw x (List.mem_cons_of_mem c hx))

theorem IsWord.scans {w : CText} (hw : IsWord w) : Scans expand w w := by
  obtain ⟨c, rest, rfl⟩ := List.exists_cons_of_ne_nil hw.1
  refine ⟨⟨c, rest, rfl, (hw.2 c List.mem_cons_self).1⟩, fun outer current str => ?_⟩
  have hletters := hw.2
  clear hw
  generalize c :: rest = w at hletters
  induction w generalizing current with
  | nil => rw [List.nil_append, List.append_nil]
  | cons c w ih =>
      obtain ⟨hblank, hdollar, hclose⟩ := hletters c List.mem_cons_self
      rw [List.cons_append, exprListFrom_letter hdollar (fun _ => hblank) fun _ => hclose,
        ih _ fun x hx => hletters x (List.mem_cons_of_mem c hx), List.append_assoc,
        List.singleton_append]

theorem scans_bracket {raw raw' v : CText} (hraw : ScansInside expand raw raw')
    (hv : expand raw' = some v) : Scans expand ('$' :: '{' :: (raw ++ ['}'])) v := by
  refine ⟨⟨'$', _, rfl, by decide⟩, fun outer current str => ?_⟩
  have hopen : exprListFrom expand false outer current ('$' :: '{' :: (raw ++ ['}']) ++ str) =
      exprListFrom expand false (current :: outer) [] (raw ++ '}' :: str) := by
    rw [List.cons_append, List.cons_append, List.append_assoc, List.singleton_append]
    rfl
  rw [hopen, hraw, List.nil_append, exprListFrom_close, hv, Option.bind_some]

theorem scansInside_argsText {args values : List CText}
    (h : List.Forall₂ (Scans expand) args values) :
    ScansInside expand (argsText args) (argsText values) := by
  induction h with
  | nil => exact scansInside_nil
  | cons hfirst _ ih =>
      have hblank : ScansInside expand [' '] [' '] := 
        scansInside_letters (List.all_iff_forall_prop.mp (by decide))
      exact (hblank.append hfirst.inside).append ih

/-- Arguments are taken apart at the blanks between them. -/
theorem dbeGetExprList_argsText {args values : List CText} (hne : args ≠ [])
    (h : List.Forall₂ (Scans expand) args values) (expectedNumber : ℕ) :
    dbeGetExprList expand (argsText args) expectedNumber = some (padTo expectedNumber values) := by
  have hlist : ∀ {arg value args values}, Scans expand arg value →
      List.Forall₂ (Scans expand) args values →
      exprListFrom expand false [] [] (arg ++ argsText args) = some (value :: values) := by
    intro arg value args values harg hargs
    induction hargs generalizing arg value with
    | nil =>
        rw [harg.scan]
        simp [argsText, exprListFrom, openText]
    | @cons arg' _ args' _ harg' _ ih =>
        obtain ⟨c, rest, htext, hc⟩ := harg'.start
        have hnext : argsText (arg' :: args') = ' ' :: (arg' ++ argsText args') := rfl
        rw [harg.scan, List.nil_append, hnext, exprListFrom_blank, htext, List.cons_append,
          exprListFrom_between hc, ← List.cons_append, ← htext, ih harg', Option.map_some]
  cases h with
  | nil => exact absurd rfl hne
  | @cons arg value args values harg hargs =>
      obtain ⟨c, rest, htext, hc⟩ := harg.start
      have hstart : (argsText (arg :: args)).dropWhile isspace = arg ++ argsText args := by
        have hcons : argsText (arg :: args) = ' ' :: (arg ++ argsText args) := rfl
        rw [hcons, htext, List.dropWhile_cons_of_pos (by decide), List.cons_append,
          List.dropWhile_cons_of_neg (by simp [hc])]
      rw [dbeGetExprList, hstart, hlist harg hargs, Option.map_some]

end Scanning

/-! ### Values -/

@[simp] theorem signOf_text (s : Sign) (str : CText) : signOf (s.text ++ ' ' :: str) = some s := by
  cases s with
  | comparison op => cases op <;> rfl
  | _ => rfl

/-- A name that does not begin like a sign has none. -/
theorem signOf_eq_none {c : Char} (hc : c ∉ signStarts) (str : CText) :
    signOf (c :: str) = none := by
  have hall : ∀ s ∈ Sign.all, s.text ≠ [] ∧
      (s.text.take 1).all (fun x => x ∈ signStarts) = true := by decide
  rw [signOf, List.find?_eq_none]
  intro s hs
  obtain ⟨hne, hstart⟩ := hall s hs
  obtain ⟨x, t, htext⟩ := List.exists_cons_of_ne_nil hne
  have hx : x ≠ c := by
    rintro rfl
    rw [htext] at hstart
    exact hc (List.all_iff_forall_prop.mp hstart x List.mem_cons_self)
  simp [htext, List.isPrefixOf, hx]

@[simp] theorem argsText_cons (arg : CText) (args : List CText) :
    argsText (arg :: args) = ' ' :: (arg ++ argsText args) := rfl

theorem conditional_three (otherwise : Option CText) (test yes no : CText) (more : List CText) :
    d.conditional otherwise (test :: yes :: no :: more) =
      some (if d.eq (d.convertToType test d.zero) (d.ofRat 1) then yes else no) := by
  rw [Doubles.conditional]
  split <;> rfl

/-- A list has its value. -/
theorem settles_dbeExpand_list {head : Head} {args values : List CText} {v : CText}
    (hne : args ≠ [])
    (hargs : ∀ᶠ n in Filter.atTop, List.Forall₂ (Scans (dbeExpand d scope n)) args values)
    (hv : head.HasValue d scope values v) :
    Settles (fun n => dbeExpand d scope n (head.text ++ argsText args)) v := by
  apply settles_succ_iff.mp
  obtain ⟨arg, args', hcons⟩ := List.exists_cons_of_ne_nil hne
  cases head with
  | sign s =>
      filter_upwards [hargs, hv] with n hn hvalue
      have hsign : signOf (s.text ++ argsText args) = some s := by
        simp [hcons]
      have hcolon : (s.text ++ argsText args).head? ≠ some ':' := by
        have hall : ∀ s ∈ Sign.all, s.text ≠ [] ∧ s.text.head? ≠ some ':' := by decide
        obtain ⟨hnil, hhead⟩ := hall s s.mem_all
        rwa [List.head?_append_of_ne_nil _ hnil]
      show dbeExpandWith d scope n (dbeExpand d scope n) (s.text ++ argsText args) = some v
      simp only [dbeExpandWith, if_neg hcolon, hsign, List.drop_left]
      rw [dbeGetExprList_argsText hne hn, Option.bind_some, hvalue]
  | condition =>
      obtain ⟨test, yes, no, more, rfl, rfl⟩ := hv
      filter_upwards [hargs] with n hn
      have hsign : signOf ('?' :: argsText args) = none := by
        rw [hcons, argsText_cons]
        rfl
      show dbeExpandWith d scope n (dbeExpand d scope n) ('?' :: argsText args) = _
      have hlist := dbeGetExprList_argsText hne hn 2
      simp only [padTo, List.cons_append] at hlist
      simp [dbeExpandWith, hsign, hlist, conditional_three]

/-- A name has the value of the variable. -/
theorem settles_dbeExpand_var {name : CText} (hword : IsWord name)
    (hname : ∀ c ∈ name.head?, c ∉ signStarts) :
    Settles (fun n => dbeExpand d scope n name) (dbeGetVariable scope name).original := by
  apply settles_succ_iff.mp
  refine Filter.Eventually.of_forall fun n => ?_
  obtain ⟨c, rest, rfl⟩ := List.exists_cons_of_ne_nil hword.1
  have hc : c ∉ signStarts := hname c rfl
  have hne : ∀ x ∈ signStarts, some c ≠ some x := fun x hx heq =>
    hc (Option.some.inj heq ▸ hx)
  have hlist : dbeGetExprList (dbeExpand d scope n) (c :: rest) 1 = some [c :: rest] := by
    have hscans : Scans (dbeExpand d scope n) (c :: rest) (c :: rest) := hword.scans
    have hscan := hscans.scan [] [] []
    rw [List.append_nil, List.nil_append] at hscan
    rw [dbeGetExprList, List.dropWhile_cons_of_neg (by simp [(hword.2 c List.mem_cons_self).1]),
      hscan]
    rfl
  have hcolon := hne ':' (by decide)
  have hquestion := hne '?' (by decide)
  have hmacro := hne '!' (by decide)
  show dbeExpandWith d scope n (dbeExpand d scope n) (c :: rest) = _
  simp only [dbeExpandWith, List.head?_cons, signOf_eq_none hc, if_neg hcolon,
    if_neg hquestion, if_neg hmacro, variableText, hlist]
  rfl

mutual

/-- Reading what is written for an expression puts its value behind what has been read. -/
theorem Expr.scans : (e : Expr) → ∀ {v : CText}, e.HasValue d scope v →
    ∀ᶠ n in Filter.atTop, Scans (dbeExpand d scope n) e.text v
  | .word w, v, hv => by
      obtain rfl : v = w.val := hv
      exact Filter.Eventually.of_forall fun n => w.property.scans
  | .var name, v, hv => by
      obtain rfl : v = (dbeGetVariable scope name.val).original := hv
      filter_upwards [settles_dbeExpand_var name.property.1 name.property.2] with n hn
      exact scans_bracket name.property.1.scans.inside hn
  | .list head first more, v, hv => by
      obtain ⟨v₁, vs, hfirst, hmore, hwords, hvalue⟩ := hv
      have hself : ∀ᶠ n in Filter.atTop,
          List.Forall₂ (Scans (dbeExpand d scope n)) (v₁ :: vs) (v₁ :: vs) :=
        Filter.Eventually.of_forall fun n => List.forall₂_same.mpr fun x hx => (hwords x hx).scans
      filter_upwards [first.scans hfirst, scans_textsOf more hmore,
        settles_dbeExpand_list (List.cons_ne_nil v₁ vs) hself hvalue] with n hscan hscans hn
      have hhead : ScansInside (dbeExpand d scope n) head.text head.text :=
        scansInside_letters fun c hc => (head.of_mem_text c hc).2
      exact scans_bracket (hhead.append (scansInside_argsText (.cons hscan hscans))) hn

theorem scans_textsOf : (es : List Expr) → ∀ {vs : List CText}, HaveValues d scope es vs →
    ∀ᶠ n in Filter.atTop, List.Forall₂ (Scans (dbeExpand d scope n)) (textsOf es) vs
  | [], vs, hvs => by
      obtain rfl : vs = [] := hvs
      exact Filter.Eventually.of_forall fun n => .nil
  | e :: es, vs, hvs => by
      obtain ⟨v, vs', rfl, hv, hvs'⟩ := hvs
      filter_upwards [e.scans hv, scans_textsOf es hvs'] with n hscan hscans
      exact .cons hscan hscans

end

/-! ### Templates -/

/-- A part of a string: text, or an expression. -/
inductive Piece
  | text (t : { t : CText // '$' ∉ t })
  | expr (e : Expr)

def Piece.written : Piece → CText
  | text t => t.val
  | expr e => e.text

def Piece.HasValue (d : Doubles) (scope : Scope) : Piece → CText → Prop
  | text t, v => v = t.val
  | expr e, v => e.HasTopValue d scope v

theorem expandStringFrom_plain {t : CText} (ht : '$' ∉ t) (str : CText) :
    expandStringFrom expand 0 [] (t ++ str) =
      (expandStringFrom expand 0 [] str).map (t ++ ·) := by
  refine expandStringFrom_text (fun hin => ht ?_) fun hlast => absurd ?_ ht
  · exact hin.subset List.mem_cons_self
  · exact List.mem_of_getLast? hlast

/-- The value of an expression takes its place. -/
theorem Expr.expandString {e : Expr} {v : CText} (hv : e.HasTopValue d scope v) :
    ∀ᶠ n in Filter.atTop, ∀ str,
      expandStringFrom (dbeExpand d scope n) 0 [] (e.text ++ str) =
        (expandStringFrom (dbeExpand d scope n) 0 [] str).map (v ++ ·) := by
  have hbracket : ∀ {raw : CText}, Balanced raw → Settles (fun n => dbeExpand d scope n raw) v →
      ∀ᶠ n in Filter.atTop, ∀ str,
        expandStringFrom (dbeExpand d scope n) 0 [] ('$' :: '{' :: (raw ++ ['}']) ++ str) =
          (expandStringFrom (dbeExpand d scope n) 0 [] str).map (v ++ ·) := by
    intro raw hraw hsettles
    filter_upwards [hsettles] with n hn str
    have htext : '$' :: '{' :: (raw ++ ['}']) ++ str = '$' :: '{' :: (raw ++ '}' :: str) := by simp
    rw [htext, expandStringFrom_bracket hraw, hn, Option.bind_some]
  cases e with
  | word w =>
      obtain rfl : v = w.val := hv
      refine Filter.Eventually.of_forall fun n => expandStringFrom_plain fun hdollar => ?_
      exact (w.property.2 _ hdollar).2.1 rfl
  | var name =>
      obtain rfl : v = (dbeGetVariable scope name.val).original := hv
      exact hbracket name.property.1.balanced
        (settles_dbeExpand_var name.property.1 name.property.2)
  | list head first more =>
      obtain ⟨v₁, vs, hfirst, hmore, hvalue⟩ := hv
      have hhead : Balanced head.text :=
        balanced_letters fun c hc => (head.of_mem_text c hc).2
      have hargs : ∀ᶠ n in Filter.atTop, List.Forall₂ (Scans (dbeExpand d scope n))
          (first.text :: textsOf more) (v₁ :: vs) := by
        filter_upwards [first.scans hfirst, scans_textsOf more hmore] with n hscan hscans
        exact .cons hscan hscans
      refine hbracket (hhead.append (balanced_argsText fun arg harg => ?_))
        (settles_dbeExpand_list (List.cons_ne_nil _ _) hargs hvalue)
      exact balanced_textsOf (first :: more) arg harg

/-- **Expansion.** A string of texts and expressions expands to the texts and the values of
the expressions. -/
theorem dbeExpandString_pieces (d : Doubles) (scope : Scope) {pieces : List Piece}
    {values : List CText} (h : List.Forall₂ (Piece.HasValue d scope) pieces values) :
    Settles (fun n => dbeExpandString d scope n (pieces.flatMap Piece.written)) values.flatten := by
  induction h with
  | nil => exact settles_some []
  | @cons piece v pieces values hpiece _ ih =>
      cases piece with
      | text t =>
          obtain rfl : v = t.val := hpiece
          filter_upwards [ih] with n hn
          rw [dbeExpandString] at hn
          show expandStringFrom _ 0 [] (t.val ++ pieces.flatMap Piece.written) = _
          rw [expandStringFrom_plain t.property, hn]
          rfl
      | expr e =>
          filter_upwards [e.expandString hpiece, ih] with n he hn
          rw [dbeExpandString] at hn
          show expandStringFrom _ 0 [] (e.text ++ pieces.flatMap Piece.written) = _
          rw [he, hn]
          rfl

/-- Where `y` is 4, `sum ${+ ${y} 1}` is a sum. -/
theorem sum_expands :
    Settles (fun n => dbeExpandString wholeDoubles
      { activeSection := [], vars := [Variable.take ['y'] ['4']] } n
      "sum $\x7b+ $\x7by\x7d 1\x7d".toList) "sum 5.000000e+00".toList := by
  have hpieces : List.Forall₂
      (Piece.HasValue wholeDoubles { activeSection := [], vars := [Variable.take ['y'] ['4']] })
      [.text ⟨"sum ".toList, by decide⟩,
        .expr (.list (.sign .sum) (.var ⟨['y'], by decide, by simp [signStarts]⟩)
          [.word ⟨['1'], by decide⟩])]
      ["sum ".toList, "5.000000e+00".toList] := by
    refine .cons rfl (.cons ?_ .nil)
    refine ⟨['4'], [['1']], rfl, ⟨_, _, rfl, rfl, rfl⟩, ?_⟩
    exact settles_some _
  exact dbeExpandString_pieces wholeDoubles _ hpieces

/-! ### Macros -/

/-- A macro as it is written. -/
def macroText (name : CText) : CText := '$' :: '{' :: '!' :: (name ++ ['}'])

/-- The text of every macro of these names has another one of them in it, with no bracket in
front. -/
def LeadsOn (scope : Scope) (names : CText → Prop) : Prop :=
  ∀ name, names name → (dbeGetVariable scope name).name ≠ [] ∧
    ∃ front next back, (dbeGetVariable scope name).original = front ++ (macroText next ++ back) ∧
      '$' ∉ front ∧ (∀ c ∈ next, c ≠ '$' ∧ c ≠ '}') ∧ names next

/-- A bracket without a value leaves the list around it without one. -/
theorem exprListFrom_eq_none {front name back : CText} (hfront : '$' ∉ front)
    (hname : ∀ c ∈ name, c ≠ '$' ∧ c ≠ '}') (hnone : expand ('!' :: name) = none)
    (between : Bool) (current : CText) :
    exprListFrom expand between [] current (front ++ (macroText name ++ back)) = none := by
  induction front generalizing between current with
  | nil =>
      have hletters : ScansInside expand ('!' :: name) ('!' :: name) := by
        refine scansInside_letters fun c hc => ?_
        rcases List.mem_cons.mp hc with rfl | hc
        · decide
        · exact hname c hc
      have hscan := hletters current [] [] ('}' :: back)
      have hopen : exprListFrom expand between [] current ([] ++ (macroText name ++ back)) =
          exprListFrom expand false [current] [] ('!' :: name ++ '}' :: back) := by
        rw [List.nil_append, macroText, List.cons_append, List.cons_append, List.cons_append,
          List.append_assoc]
        rfl
      rw [hopen, hscan, exprListFrom_close, List.nil_append, hnone, Option.bind_none]
  | cons c front ih =>
      rw [List.mem_cons, not_or] at hfront
      have hrest := ih hfront.2
      have hno : ∀ rest, c = '$' → front ++ (macroText name ++ back) = '{' :: rest → False :=
        fun _ h => absurd h.symm hfront.1
      rw [List.cons_append, exprListFrom]
      · simp [hrest]
      · exact hno

theorem dropWhile_append_macroText (front name back : CText) :
    (front ++ (macroText name ++ back)).dropWhile isspace =
      front.dropWhile isspace ++ (macroText name ++ back) := by
  rw [List.dropWhile_append]
  split
  · next hempty =>
      rw [List.isEmpty_iff.mp hempty]
      rfl
  · rfl

/-- A macro that leads on has no value, whatever fuel there is. -/
theorem dbeExpand_macro_eq_none {names : CText → Prop} (h : LeadsOn scope names) {name : CText}
    (hname : names name) (n : ℕ) : dbeExpand d scope n ('!' :: name) = none := by
  induction n generalizing name with
  | zero => rfl
  | succ n ih =>
      obtain ⟨hdefined, front, next, back, htext, hfront, hletters, hnext⟩ := h name hname
      have hsign : signOf ('!' :: name) = none := rfl
      have hfront' : '$' ∉ front.dropWhile isspace := fun hmem =>
        hfront ((List.dropWhile_sublist isspace).subset hmem)
      have hlist : dbeGetExprList (dbeExpand d scope n) (dbeGetVariable scope name).original 2 =
          none := by
        rw [dbeGetExprList, htext, dropWhile_append_macroText,
          exprListFrom_eq_none hfront' hletters (ih hnext), Option.map_none]
      show dbeExpandWith d scope n (dbeExpand d scope n) ('!' :: name) = none
      simp [dbeExpandWith, hsign, hdefined, hlist]

/-- **Macros that lead on.** A string with a macro whose text always leads to another macro is
never expanded: the expansion of it does not end. -/
theorem not_settles_macro (d : Doubles) {names : CText → Prop} (h : LeadsOn scope names)
    {front name back : CText} (hfront : '$' ∉ front) (hname : ∀ c ∈ name, c ≠ '$' ∧ c ≠ '}')
    (hmem : names name) :
    ¬∃ v, Settles (fun n => dbeExpandString d scope n (front ++ (macroText name ++ back))) v := by
  rintro ⟨v, hsettles⟩
  obtain ⟨n, hn⟩ := hsettles.exists
  have hsome : expandStringFrom (dbeExpand d scope n) 0 [] (front ++ (macroText name ++ back)) =
      some v := hn
  have hbalanced : Balanced ('!' :: name) := by
    refine balanced_letters fun c hc => ?_
    rcases List.mem_cons.mp hc with rfl | hc
    · decide
    · exact hname c hc
  have hbracket : macroText name ++ back = '$' :: '{' :: ('!' :: name ++ '}' :: back) := by
    rw [macroText, List.cons_append, List.cons_append, List.cons_append, List.append_assoc]
    rfl
  rw [expandStringFrom_plain hfront, hbracket, expandStringFrom_bracket hbalanced,
    dbeExpand_macro_eq_none h hmem] at hsome
  cases hsome

/-- The macro `m` with `x ${!m}` as its text. -/
theorem macro_of_itself :
    ¬∃ v, Settles (fun n => dbeExpandString wholeDoubles
      { activeSection := []
        vars := [Variable.take ['m'] ("x ".toList ++ (macroText ['m'] ++ []))] } n
      ([] ++ (macroText ['m'] ++ []))) v := by
  have hleads : LeadsOn
      { activeSection := []
        vars := [Variable.take ['m'] ("x ".toList ++ (macroText ['m'] ++ []))] }
      fun name => name = ['m'] := by
    rintro name rfl
    exact ⟨by decide, "x ".toList, ['m'], [], rfl, by decide, by simp, rfl⟩
  exact not_settles_macro wholeDoubles hleads List.not_mem_nil (by simp) rfl

end Grvy.GetPot
