import Grvy.GetPot.Tokens
import Grvy.GetPot.Object

/-!
Input files as they are written, and what they mean.

A file is a list of lines: comments, labels of sections, assignments and other arguments. A
text is written in quotes where it has to be. Reading what is written gives an object in
which every name has the last value that the lines assign to it, in the section that is open
in this line.
-/

namespace Grvy.GetPot

open Grvy.Lib

variable {t istr rest : CText} {d : Char}

/-! ### Words in a file -/

/-- A character that needs no quotes wherever it is in a word. -/
def isBare (c : Char) : Bool := isPlain c && !isspace c && c ≠ commentStart

/-- A text as it is written. -/
def written (t : CText) : CText := if t.all isBare then t else quoted t

/-- A text that can be a token in front of others. -/
structure IsToken (t : CText) : Prop where
  notEnd : isEnd t = false
  backslash : t.getLast? ≠ some backslash

instance (t : CText) : Decidable (IsToken t) :=
  decidable_of_iff (isEnd t = false ∧ t.getLast? ≠ some backslash)
    ⟨fun h => ⟨h.1, h.2⟩, fun h => ⟨h.notEnd, h.backslash⟩⟩

theorem IsToken.ne_nil (h : IsToken t) : t ≠ [] := by
  rintro rfl
  exact absurd h.notEnd (by decide)

theorem isBare_iff {c : Char} :
    isBare c = true ↔ isPlain c = true ∧ isspace c = false ∧ c ≠ commentStart := by
  simp [isBare, and_assoc]

theorem skipWhitespace_blank (h : isspace d = true) :
    skipWhitespace (d :: istr) = skipWhitespace istr := by
  rw [skipWhitespace, if_pos h]

/-- What is written for a token is found behind white space. -/
theorem skipWhitespace_written (h : IsToken t) (istr : CText) :
    skipWhitespace (written t ++ istr) = written t ++ istr := by
  rw [written]
  split
  · next hbare =>
      obtain ⟨c, t, rfl⟩ := List.exists_cons_of_ne_nil h.ne_nil
      have hc : isBare c = true := List.all_eq_true.mp hbare c List.mem_cons_self
      obtain ⟨-, hspace, hcomment⟩ := isBare_iff.mp hc
      simp [skipWhitespace, hspace, hcomment]
  · simp [quoted_append]

theorem getNextToken_written (h : IsToken t) (hd : isBlank d = true) (istr : CText) :
    getNextToken nul (written t ++ d :: istr) = (t, istr) := by
  have hnul : nul ≠ backslash := by decide
  rw [written]
  split
  · next hbare =>
      refine getNextToken_word (fun c hc => ?_) hnul (by decide) hd
      exact (isBare_iff.mp (List.all_eq_true.mp hbare c hc)).1
  · exact getNextToken_quoted h.backslash hnul hd

theorem bruteTokens_written (h : IsToken t) (hd : isBlank d = true) (istr : CText) :
    bruteTokens (written t ++ d :: istr) = t :: bruteTokens istr := by
  refine bruteTokens_cons ?_ h.notEnd
  rw [skipWhitespace_written h, getNextToken_written h hd]

theorem bruteTokens_congr (h : skipWhitespace istr = skipWhitespace rest) :
    bruteTokens istr = bruteTokens rest := by
  rw [bruteTokens, h, ← bruteTokens]

theorem skipComment_append {text : CText} (h : commentEnd ∉ text) (istr : CText) :
    skipComment false (text ++ commentEnd :: istr) = skipWhitespace istr := by
  induction text with
  | nil => simp [skipComment]
  | cons c text ih =>
      obtain ⟨hc, htext⟩ := not_or.mp fun hmem => h (List.mem_cons.mpr hmem)
      rw [List.cons_append, skipComment, if_neg Bool.false_ne_true, if_neg (Ne.symm hc),
        ih htext]

/-! ### Lines -/

inductive Line
  | blank
  /-- The first character belongs to the comment even if it is the end of the line. -/
  | comment (first : Char) (text : CText)
  | label (name : CText)
  | assignment (name value : CText)
  | argument (text : CText)

namespace Line

def text : Line → CText
  | blank => ['\n']
  | comment first text => commentStart :: first :: (text ++ [commentEnd])
  | label name => written ('[' :: (name ++ [']'])) ++ ['\n']
  | assignment name value =>
      if value = [] then written (name ++ ['=']) ++ ['\n']
      else written name ++ ' ' :: '=' :: ' ' :: (written value ++ ['\n'])
  | argument text => written text ++ ['\n']

/-- The arguments of a line. -/
def arguments : Line → List CText
  | blank => []
  | comment _ _ => []
  | label name => ['[' :: (name ++ [']'])]
  | assignment name value => [name ++ '=' :: value]
  | argument text => [text]

/-- The arguments as they are cut into tokens. -/
def tokens : Line → List CText
  | assignment name value => if value = [] then [name ++ ['=']] else [name, ['='], value]
  | line => line.arguments

/-- What a line has to be like to be read as what it is. -/
def Ok : Line → Prop
  | blank => True
  | comment _ text => commentEnd ∉ text
  | label name => LabelEnds name ∧ IsText name ∧ nul ∉ name ∧ '=' ∉ name
  | assignment name value =>
      IsToken name ∧ name.head? ≠ some '[' ∧ nul ∉ name ∧ '=' ∉ name ∧
        (value = [] ∨ IsToken value) ∧ IsText (name ++ '=' :: value) ∧ nul ∉ value
  | argument text => IsToken text ∧ IsText text ∧ isLabel text = false ∧ '=' ∉ text

instance : (line : Line) → Decidable line.Ok
  | blank => .isTrue trivial
  | comment _ _ => inferInstanceAs (Decidable (_ ∉ _))
  | label _ => inferInstanceAs (Decidable (_ ∧ _ ∧ _ ∉ _ ∧ _ ∉ _))
  | assignment _ _ =>
      inferInstanceAs (Decidable (_ ∧ _ ≠ _ ∧ _ ∉ _ ∧ _ ∉ _ ∧ (_ = [] ∨ _) ∧ _ ∧ _ ∉ _))
  | argument _ => inferInstanceAs (Decidable (_ ∧ _ ∧ _ = _ ∧ _ ∉ _))

end Line

/-- A file with these lines. -/
def fileText (lines : List Line) : CText := lines.flatMap Line.text

/-! ### Reading lines -/

theorem isToken_label (name : CText) : IsToken ('[' :: (name ++ [']'])) := by
  refine ⟨by simp [isEnd], ?_⟩
  rw [← List.cons_append, List.getLast?_concat]
  decide

theorem isToken_name {name : CText} (h : IsToken name) : IsToken (name ++ ['=']) := by
  obtain ⟨c, rest, rfl⟩ := List.exists_cons_of_ne_nil h.ne_nil
  have hstart := h.notEnd
  refine ⟨by simpa [isEnd] using hstart, ?_⟩
  rw [List.getLast?_concat]
  decide

theorem bruteTokens_line {line : Line} (h : line.Ok) (istr : CText) :
    bruteTokens (line.text ++ istr) = line.tokens ++ bruteTokens istr := by
  have hnewline : isBlank '\n' = true := by decide
  have hblank : isBlank ' ' = true := by decide
  cases line with
  | blank => exact bruteTokens_congr (skipWhitespace_blank (by decide))
  | comment first text =>
      refine bruteTokens_congr ?_
      have htext : (Line.comment first text).text ++ istr =
          commentStart :: first :: (text ++ commentEnd :: istr) := by simp [Line.text]
      rw [htext, skipWhitespace, if_neg (by decide), if_neg (by simp), skipComment, if_pos rfl,
        skipComment_append h]
  | label name =>
      rw [Line.text, List.append_assoc, List.singleton_append,
        bruteTokens_written (isToken_label name) hnewline]
      rfl
  | assignment name value =>
      obtain ⟨hname, -, -, -, hvalue, -, -⟩ := h
      rw [Line.text, Line.tokens]
      split
      · rw [List.append_assoc, List.singleton_append,
          bruteTokens_written (isToken_name hname) hnewline]
        rfl
      · next hne =>
          have hequals : IsToken ['='] := ⟨by decide, by decide⟩
          have hwritten : written ['='] = ['='] := by decide
          have htext : written name ++ ' ' :: '=' :: ' ' :: (written value ++ ['\n']) ++ istr =
              written name ++ ' ' :: (written ['='] ++ ' ' ::
                (written value ++ '\n' :: istr)) := by
            rw [hwritten]
            simp
          rw [htext, bruteTokens_written hname hblank, bruteTokens_written hequals hblank,
            bruteTokens_written (hvalue.resolve_left hne) hnewline]
          rfl
  | argument text =>
      rw [Line.text, List.append_assoc, List.singleton_append,
        bruteTokens_written h.1 hnewline]
      rfl

theorem bruteTokens_fileText {lines : List Line} (h : ∀ line ∈ lines, line.Ok) (istr : CText) :
    bruteTokens (fileText lines ++ istr) = lines.flatMap Line.tokens ++ bruteTokens istr := by
  induction lines with
  | nil => rfl
  | cons line lines ih =>
      have htext : fileText (line :: lines) ++ istr = line.text ++ (fileText lines ++ istr) := by
        simp [fileText]
      rw [htext, bruteTokens_line (h line List.mem_cons_self),
        ih fun x hx => h x (List.mem_cons_of_mem line hx), List.flatMap_cons, List.append_assoc]

/-! ### Assignments -/

theorem joinAssignments_cons {tokens : List CText} (h : tokens.head? ≠ some ['=']) :
    joinAssignments (t :: tokens) = t :: joinAssignments tokens := by
  cases tokens with
  | nil => rfl
  | cons token tokens =>
      have hne : token ≠ ['='] := fun heq => h (congrArg some heq)
      cases tokens with
      | nil => exact if_neg hne
      | cons token' tokens => rw [joinAssignments, if_neg hne]

theorem head_tokens {line : Line} (h : line.Ok) {tokens : List CText}
    (htokens : tokens.head? ≠ some ['=']) : (line.tokens ++ tokens).head? ≠ some ['='] := by
  cases line with
  | blank => exact htokens
  | comment first text => exact htokens
  | label name => simp [Line.tokens, Line.arguments]
  | assignment name value =>
      obtain ⟨hname, -, -, hequals, -⟩ := h
      rw [Line.tokens]
      split
      · simp [hname.ne_nil]
      · intro heq
        obtain rfl : name = ['='] := Option.some.inj heq
        exact hequals List.mem_cons_self
  | argument text =>
      intro heq
      obtain rfl : text = ['='] := Option.some.inj heq
      exact h.2.2.2 List.mem_cons_self

/-- The tokens of an assignment are put together again. -/
theorem joinAssignments_line {line : Line} (h : line.Ok) {tokens : List CText}
    (htokens : tokens.head? ≠ some ['=']) :
    joinAssignments (line.tokens ++ tokens) = line.arguments ++ joinAssignments tokens := by
  cases line with
  | blank => rfl
  | comment first text => rfl
  | label name => exact joinAssignments_cons htokens
  | assignment name value =>
      rw [Line.tokens]
      split
      · next hvalue =>
          rw [List.singleton_append, joinAssignments_cons htokens, hvalue]
          rfl
      · simp [joinAssignments, Line.arguments]
  | argument text => exact joinAssignments_cons htokens

theorem joinAssignments_lines {lines : List Line} (h : ∀ line ∈ lines, line.Ok)
    {tokens : List CText} (htokens : tokens.head? ≠ some ['=']) :
    (lines.flatMap Line.tokens ++ tokens).head? ≠ some ['='] ∧
      joinAssignments (lines.flatMap Line.tokens ++ tokens) =
        lines.flatMap Line.arguments ++ joinAssignments tokens := by
  induction lines with
  | nil => exact ⟨htokens, rfl⟩
  | cons line lines ih =>
      have hline := h line List.mem_cons_self
      obtain ⟨hhead, hjoin⟩ := ih fun x hx => h x (List.mem_cons_of_mem line hx)
      rw [List.flatMap_cons, List.flatMap_cons, List.append_assoc, List.append_assoc]
      exact ⟨head_tokens hline hhead, by rw [joinAssignments_line hline hhead, hjoin]⟩

/-- What is read of a file are the arguments of its lines. -/
theorem readInStream_fileText {lines : List Line} (h : ∀ line ∈ lines, line.Ok) :
    readInStream (fileText lines) = lines.flatMap Line.arguments := by
  have hnone : ([] : List CText).head? ≠ some ['='] := nofun
  have htokens := bruteTokens_fileText h []
  have hjoin := (joinAssignments_lines h hnone).2
  rw [List.append_nil, bruteTokens_nil] at htokens
  rw [readInStream, htokens, hjoin, joinAssignments, List.append_nil]

/-! ### What lines mean -/

namespace Line

/-- A line with the names as they are in a section. -/
def inSection (sec : CText) : Line → Line
  | assignment name value => assignment (sec ++ name) value
  | argument text => argument (sec ++ text)
  | line => line

/-- The sections that are open behind a line. -/
def enter (stack : List CText) : Line → List CText
  | label name => labelTarget stack name
  | _ => stack

def assigned : Line → Option (CText × CText)
  | assignment name value => some (name, value)
  | _ => none

end Line

/-- The lines and the sections they are in. -/
def places (stack : List CText) : List Line → List (CText × Line)
  | [] => []
  | line :: lines => (sectionText stack, line) :: places (line.enter stack) lines

/-- The lines as they are stored. -/
def storedLines (stack : List CText) (lines : List Line) : List Line :=
  (places stack lines).map fun p => p.2.inSection p.1

/-- What the lines assign. -/
def meaning (lines : List Line) : List (CText × CText) :=
  (storedLines [] lines).filterMap Line.assigned

/-- The last value of a name. -/
def lastOf (name : CText) (assignments : List (CText × CText)) : Option CText :=
  (assignments.reverse.find? fun a => a.1 = name).map Prod.snd

theorem lastValue_eq (name : CText) (args : List CText) :
    lastValue name args = lastOf (cStr name) (args.filterMap splitAssignment) := rfl

theorem cStr_of_notMem (h : nul ∉ t) : cStr t = t :=
  List.takeWhile_eq_self_iff.mpr fun c hc => by
    simpa using fun heq : c = nul => h (heq ▸ hc)

theorem splitAssignment_eq_none (h : '=' ∉ t) : splitAssignment t = none :=
  if_neg fun hmem => h ((List.takeWhile_prefix _).subset hmem)

theorem splitAssignment_append {name value : CText} (hname : '=' ∉ name)
    (hnul : nul ∉ name ++ '=' :: value) :
    splitAssignment (name ++ '=' :: value) = some (name, value) := by
  have hwhile : ∀ c ∈ name, (decide (c ≠ '=')) = true := fun c hc =>
    decide_eq_true fun heq => hname (heq ▸ hc)
  rw [splitAssignment]
  simp only [cStr_of_notMem hnul]
  rw [if_pos (by simp), List.takeWhile_append_of_pos hwhile, List.dropWhile_append_of_pos hwhile]
  simp

/-! ### Sections -/

theorem mem_popParents {stack : List CText} {label s : CText}
    (h : s ∈ (popParents stack label).1) : s ∈ stack := by
  fun_induction popParents stack label with
  | case1 stack sname ih => exact List.mem_of_mem_dropLast (ih h)
  | case2 stack sname hno => exact h

theorem popParents_suffix (stack : List CText) (label : CText) :
    (popParents stack label).2 <:+ label := by
  fun_induction popParents stack label with
  | case1 stack sname ih => exact ih.trans (List.suffix_append ['.', '.', '/'] sname)
  | case2 stack sname hno => exact List.suffix_refl _

/-- The names of a section are those of the section before, and made of the label. -/
theorem mem_labelTarget {stack : List CText} {label s : CText} (h : s ∈ labelTarget stack label) :
    s ∈ stack ∨ ∀ c ∈ s, c ∈ label := by
  have hstart : ∀ s ∈ (labelStart stack label).1, s ∈ stack := by
    fun_cases labelStart stack label with
    | case1 sname => exact fun s hs => hs
    | case2 sname => exact fun s hs => List.mem_of_mem_dropLast (mem_popParents hs)
    | case3 sname => exact fun s hs => absurd hs List.not_mem_nil
  have hpath : (labelStart stack label).2 <:+ label := by
    fun_cases labelStart stack label with
    | case1 sname => exact List.suffix_append ['.', '/'] sname
    | case2 sname => exact (popParents_suffix _ sname).trans (List.suffix_append ['.', '.', '/'] _)
    | case3 sname => exact List.suffix_refl _
  rw [labelTarget, List.mem_append, labelNames] at h
  rcases h with h | h
  · exact .inl (hstart s h)
  · right
    split at h
    · exact absurd h List.not_mem_nil
    · exact fun c hc => hpath.subset (mem_of_mem_splitOnP _ _ s h c hc).1

/-- No name of a section has this character in it. -/
theorem notMem_sectionText {stack : List CText} {c : Char} (hc : c ≠ '/')
    (h : ∀ s ∈ stack, c ∉ s) : c ∉ sectionText stack := by
  rw [sectionText, List.mem_flatMap]
  rintro ⟨s, hs, hmem⟩
  rcases List.mem_append.mp hmem with hmem | hmem
  · exact h s hs hmem
  · exact hc (List.mem_singleton.mp hmem)

/-- The names of the open sections can be in front of the name of a variable. -/
def CleanStack (stack : List CText) : Prop := ∀ s ∈ stack, nul ∉ s ∧ '=' ∉ s

theorem CleanStack.labelTarget {stack : List CText} {name : CText} (h : CleanStack stack)
    (hnul : nul ∉ name) (hequals : '=' ∉ name) : CleanStack (labelTarget stack name) := by
  intro s hs
  rcases mem_labelTarget hs with hs | hs
  · exact h s hs
  · exact ⟨fun hmem => hnul (hs _ hmem), fun hmem => hequals (hs _ hmem)⟩

/-! ### The object of a file -/

section Reading

variable {i : ℕ} {arg name value : CText} {s : Object × List CText}

@[simp] theorem isLabel_brackets (name : CText) : isLabel ('[' :: (name ++ [']'])) = true := by
  rw [isLabel, ← List.cons_append, List.getLast?_concat]
  simp

theorem isLabel_eq_false (h : arg.head? ≠ some '[') : isLabel arg = false := by
  simp [isLabel, h]

theorem Line.Ok.isLabel_eq_false (h : (Line.assignment name value).Ok) :
    isLabel (name ++ '=' :: value) = false := by
  obtain ⟨hname, hhead, -⟩ := h
  refine GetPot.isLabel_eq_false ?_
  rwa [List.head?_append_of_ne_nil _ hname.ne_nil]

theorem readArgument_label (name : CText) :
    readArgument i ('[' :: (name ++ [']'])) s =
      ((s.1.openSection ('[' :: (name ++ [']']))
          (sectionText (labelTarget s.2 name))).recordArgument i ('[' :: (name ++ [']'])),
        labelTarget s.2 name) := by
  rw [readArgument, if_neg (List.cons_ne_nil _ _), if_pos (isLabel_brackets name), List.tail_cons,
    List.dropLast_concat]

theorem readArgument_other (hne : arg ≠ []) (h : isLabel arg = false) :
    readArgument i arg s =
      ((s.1.storeArgument (s.1.scope.activeSection ++ arg)).recordArgument i
        (s.1.scope.activeSection ++ arg), s.2) := by
  rw [readArgument, if_neg hne, h, if_neg Bool.false_ne_true]

/-- The arguments are stored as they are in their sections. -/
theorem argv_readFrom {lines : List Line} (h : ∀ line ∈ lines, line.Ok) (i : ℕ)
    (hsection : s.1.scope.activeSection = sectionText s.2) :
    (readFrom i (lines.flatMap Line.arguments) s).1.argv =
      s.1.argv ++ (storedLines s.2 lines).flatMap Line.arguments := by
  induction lines generalizing i s with
  | nil => exact (List.append_nil _).symm
  | cons line lines ih =>
      have hline := h line List.mem_cons_self
      have hlines : ∀ x ∈ lines, x.Ok := fun x hx => h x (List.mem_cons_of_mem line hx)
      rw [List.flatMap_cons]
      cases line with
      | blank => exact ih hlines i hsection
      | comment first text => exact ih hlines i hsection
      | label name =>
          have hread := readArgument_label (i := i) (s := s) name
          rw [Line.arguments, List.singleton_append, readFrom,
            ih hlines (i + 1) (by rw [hread]; rfl), hread]
          exact List.append_assoc _ _ _
      | assignment name value =>
          have hread := readArgument_other (i := i) (s := s) (by simp) hline.isLabel_eq_false
          rw [Line.arguments, List.singleton_append, readFrom,
            ih hlines (i + 1) (by rw [hread]; exact hsection), hread, hsection,
            ← List.append_assoc (sectionText s.2)]
          exact List.append_assoc _ _ _
      | argument text =>
          obtain ⟨htoken, -, hlabel, -⟩ := hline
          have hread := readArgument_other (i := i) (s := s) htoken.ne_nil hlabel
          rw [Line.arguments, List.singleton_append, readFrom,
            ih hlines (i + 1) (by rw [hread]; exact hsection), hread, hsection]
          exact List.append_assoc _ _ _

end Reading

theorem isText_brackets {name : CText} (h : IsText name) : IsText ('[' :: (name ++ [']'])) := by
  intro hin
  rcases List.infix_cons_iff.mp hin with hprefix | hin
  · exact absurd (List.cons_prefix_cons.mp hprefix).1 (by decide)
  · rcases List.infix_concat_iff.mp hin with ⟨before, hbefore⟩ | hin
    · have hlast := congrArg List.getLast? hbefore
      rw [List.getLast?_concat, List.getLast?_append] at hlast
      exact absurd (Option.some.inj hlast : '{' = ']') (by decide)
    · exact h hin

/-- The arguments of a line can be read. -/
theorem arguments_ok {line : Line} (h : line.Ok) :
    ∀ arg ∈ line.arguments, IsText arg ∧ EndsIfLabel arg := by
  intro arg harg
  cases line with
  | blank => exact absurd harg List.not_mem_nil
  | comment first text => exact absurd harg List.not_mem_nil
  | label name =>
      obtain ⟨hends, htext, -, -⟩ := h
      obtain rfl := List.mem_singleton.mp harg
      refine ⟨isText_brackets htext, fun _ => ?_⟩
      rwa [List.tail_cons, List.dropLast_concat]
  | assignment name value =>
      have hok := h
      obtain ⟨-, -, -, -, -, htext, -⟩ := h
      obtain rfl := List.mem_singleton.mp harg
      refine ⟨htext, fun hlabel => ?_⟩
      rw [hok.isLabel_eq_false] at hlabel
      cases hlabel
  | argument text =>
      obtain ⟨-, htext, hlabel, -⟩ := h
      obtain rfl := List.mem_singleton.mp harg
      refine ⟨htext, fun hlabel' => ?_⟩
      rw [hlabel] at hlabel'
      cases hlabel'

/-! ### The variables of a file -/

/-- Nothing in a line can be taken for another assignment. -/
def Line.Clean : Line → Prop
  | label name => '=' ∉ name
  | assignment name value => '=' ∉ name ∧ nul ∉ name ++ '=' :: value
  | argument text => '=' ∉ text
  | _ => True

theorem assigned_arguments {line : Line} (h : line.Clean) :
    line.arguments.filterMap splitAssignment = line.assigned.toList := by
  cases line with
  | blank => rfl
  | comment first text => rfl
  | label name =>
      have hname : '=' ∉ name := h
      rw [Line.arguments, List.filterMap_cons, splitAssignment_eq_none (by simp [hname])]
      rfl
  | assignment name value =>
      rw [Line.arguments, List.filterMap_cons, splitAssignment_append h.1 h.2]
      rfl
  | argument text =>
      rw [Line.arguments, List.filterMap_cons, splitAssignment_eq_none h]
      rfl

theorem filterMap_arguments {lines : List Line} (h : ∀ line ∈ lines, line.Clean) :
    (lines.flatMap Line.arguments).filterMap splitAssignment =
      lines.filterMap Line.assigned := by
  induction lines with
  | nil => rfl
  | cons line lines ih =>
      rw [List.flatMap_cons, List.filterMap_append, assigned_arguments (h line List.mem_cons_self),
        ih fun x hx => h x (List.mem_cons_of_mem line hx), List.filterMap_cons]
      cases line.assigned <;> rfl

theorem clean_inSection {line : Line} (h : line.Ok) {sec : CText} (hnul : nul ∉ sec)
    (hequals : '=' ∉ sec) : (line.inSection sec).Clean := by
  cases line with
  | blank => trivial
  | comment first text => trivial
  | label name => exact h.2.2.2
  | assignment name value =>
      obtain ⟨-, -, hnul', hequals', -, -, hvalue⟩ := h
      have hne : nul ≠ '=' := by decide
      exact ⟨by simp [hequals, hequals'], by simp [hnul, hnul', hvalue, hne]⟩
  | argument text => exact fun hmem => (List.mem_append.mp hmem).elim hequals h.2.2.2

theorem clean_storedLines {lines : List Line} (h : ∀ line ∈ lines, line.Ok)
    {stack : List CText} (hstack : CleanStack stack) :
    ∀ line ∈ storedLines stack lines, line.Clean := by
  induction lines generalizing stack with
  | nil => exact fun _ hline => absurd hline List.not_mem_nil
  | cons line lines ih =>
      have hok := h line List.mem_cons_self
      have henter : CleanStack (line.enter stack) := by
        cases line with
        | label name => exact hstack.labelTarget hok.2.2.1 hok.2.2.2
        | _ => exact hstack
      intro x hx
      rcases List.mem_cons.mp hx with rfl | hx
      · exact clean_inSection hok (notMem_sectionText (by decide) fun y hy => (hstack y hy).1)
          (notMem_sectionText (by decide) fun y hy => (hstack y hy).2)
      · exact ih (fun y hy => h y (List.mem_cons_of_mem line hy)) henter x hx

theorem length_storedLines (stack : List CText) (lines : List Line) :
    ((storedLines stack lines).flatMap Line.arguments).length =
      (lines.flatMap Line.arguments).length := by
  induction lines generalizing stack with
  | nil => rfl
  | cons line lines ih =>
      have hline : (line.inSection (sectionText stack)).arguments.length =
          line.arguments.length := by
        cases line <;> rfl
      have hrest := ih (line.enter stack)
      rw [storedLines] at hrest ⊢
      rw [places, List.map_cons, List.flatMap_cons, List.length_append, hline, hrest,
        List.flatMap_cons, List.length_append]

/-- Of the arguments of lines an object is made with all of them, and in it every name has the
last value that the lines assign to it. -/
theorem construct_lines (d : Doubles) {lines : List Line} (h : ∀ line ∈ lines, line.Ok)
    (name : CText) :
    ∃ o, Settles (fun n => construct d n name (lines.flatMap Line.arguments)) o ∧
      o.argv = name :: (storedLines [] lines).flatMap Line.arguments ∧
      ∀ varName, findVariable [] varName o.scope.vars =
        (lastOf (cStr varName) (meaning lines)).map (Variable.take (cStr varName)) := by
  have hargs : ∀ arg ∈ lines.flatMap Line.arguments, IsText arg ∧ EndsIfLabel arg := by
    intro arg harg
    obtain ⟨line, hline, hmem⟩ := List.mem_flatMap.mp harg
    exact arguments_ok (h line hline) arg hmem
  have hsettles := (construct_settles_iff d (fun arg harg => (hargs arg harg).1) name _).mpr
    ⟨fun arg harg => (hargs arg harg).2, rfl⟩
  obtain ⟨n, hn⟩ := hsettles.exists
  have hargv := argv_readFrom h 1 (s := (Object.initial name, [])) rfl
  refine ⟨_, hsettles, hargv, fun varName => ?_⟩
  rw [(variables_construct hn).2, lastValue_eq, hargv]
  show (lastOf _ (((storedLines [] lines).flatMap Line.arguments).filterMap splitAssignment)).map
    _ = _
  rw [filterMap_arguments (clean_storedLines h fun _ hs => absurd hs List.not_mem_nil)]
  rfl

/-- **Files.** Of a file that has been written an object is made with all its arguments, and in
it every name has the last value that the lines assign to it. -/
theorem construct_fileText (d : Doubles) {lines : List Line} (h : ∀ line ∈ lines, line.Ok)
    (name : CText) :
    ∃ o, Settles (fun n => construct d n name (readInStream (fileText lines))) o ∧
      o.argv = name :: (storedLines [] lines).flatMap Line.arguments ∧
      ∀ varName, findVariable [] varName o.scope.vars =
        (lastOf (cStr varName) (meaning lines)).map (Variable.take (cStr varName)) := by
  rw [readInStream_fileText h]
  exact construct_lines d h name

/-- A value in quotes, in a section that is left again. -/
def sectioned : List Line :=
  [.comment ' ' "input".toList, .label "solver".toList,
    .assignment "name".toList "two words".toList, .label [],
    .assignment "name".toList "main".toList]

theorem quoted_value_found :
    ∃ o, Settles (fun n => construct wholeDoubles n "f".toList
        (readInStream (fileText sectioned))) o ∧
      findVariable [] "solver/name".toList o.scope.vars =
        some (Variable.take "solver/name".toList "two words".toList) := by
  have hok : ∀ line ∈ sectioned, line.Ok := by decide
  obtain ⟨o, hsettles, -, hfind⟩ := construct_fileText wholeDoubles hok "f".toList
  exact ⟨o, hsettles, (hfind _).trans (by decide)⟩

end Grvy.GetPot
