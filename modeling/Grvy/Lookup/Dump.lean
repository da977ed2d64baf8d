import Grvy.Lookup.FileText

/-!
`Fdump`, and reading again what it writes.

`Fdump` writes the arguments as GetPot has stored them, and the registered defaults behind
them. With a prefix that begins a comment all of it is passed over when it is read. Without a
prefix the number of arguments and the name of the file come first. It can be read as a file,
but `argc` is a name in it, the names are already those in their sections and get the sections
once more, and registered defaults take the place of values.
-/

namespace Grvy.Lookup

open Grvy.Lib Grvy.GetPot

/-! ### What is written -/

/-- The number of arguments as an unsigned integer. -/
def argcText (argc : ℕ) : CText := Nat.toDigits 10 (argc % 2 ^ 32)

/-- `GetPot::print`. -/
def print (o : Object) : CText :=
  "argc = ".toList ++ (argcText o.argv.length ++ ['\n']) ++
    ((o.argv.flatMap fun arg => arg ++ ['\n']) ++ ['\n'])

/-- `GetPot::print` with a prefix. The name of the file is left out. -/
def printArguments (customPrefix : CText) (o : Object) : CText :=
  ((o.argv.drop 1).flatMap fun arg => customPrefix ++ (arg ++ ['\n'])) ++ ['\n']

/-- The names and values that are registered, as they are printed: `numText` is how numbers
that are not integers are. -/
def regVars (numText : ℚ → CText) (s : Input) : List (CText × CText) :=
  (s.defaults .int).toList.map (fun e => ((cString e.1).toList, (toString (e.2 : ℤ)).toList)) ++
    (s.defaults .float).toList.map (fun e => ((cString e.1).toList, numText e.2)) ++
    (s.defaults .double).toList.map (fun e => ((cString e.1).toList, numText e.2)) ++
    (s.defaults .string).toList.map (fun e => ((cString e.1).toList, String.toList e.2)) ++
    s.defaultBools.toList.map fun e => ((cString e.1).toList, [if e.2 then '1' else '0'])

def regVarsTitle : List CText :=
  ["[GRVY".toList, "Registered".toList, "Variable".toList, "Default".toList, "Values]".toList]

/-- `PrintRegVars`. -/
def printRegVars (pre : CText) (vars : List (CText × CText)) : CText :=
  pre ++ ([' '].intercalate regVarsTitle ++ ['\n']) ++
    (vars.flatMap fun r => pre ++ (r.1 ++ '=' :: r.2 ++ ['\n'])) ++ ['\n']

/-- `Fdump`, where `o` is the object of the file that is open. -/
def fdump (numText : ℚ → CText) (o : Object) (s : Input) : CText :=
  print o ++ printRegVars [] (regVars numText s)

/-- `Fdump` with a prefix. -/
def fdumpWith (numText : ℚ → CText) (pre : CText) (o : Object) (s : Input) : CText :=
  printArguments pre o ++ printRegVars pre (regVars numText s)

/-! ### A dump that is a comment -/

/-- A prefix with which a line is a comment. Blanks may be in front. -/
structure IsCommentPrefix (pre : CText) : Prop where
  oneLine : commentEnd ∉ pre
  start : (pre.dropWhile isspace).head? = some commentStart

instance (pre : CText) : Decidable (IsCommentPrefix pre) :=
  decidable_of_iff
    (commentEnd ∉ pre ∧ (pre.dropWhile isspace).head? = some commentStart)
    ⟨fun h => ⟨h.1, h.2⟩, fun h => ⟨h.oneLine, h.start⟩⟩

section Comment

variable {pre rest : CText} {lines : List CText}

theorem skipWhitespace_blanks {blanks : CText} (h : ∀ c ∈ blanks, isspace c = true)
    (istr : CText) : skipWhitespace (blanks ++ istr) = skipWhitespace istr := by
  induction blanks with
  | nil => rfl
  | cons c blanks ih =>
      rw [List.cons_append, skipWhitespace_blank (h c List.mem_cons_self),
        ih fun x hx => h x (List.mem_cons_of_mem c hx)]

theorem IsCommentPrefix.skipWhitespace_append (h : IsCommentPrefix pre) :
    ∃ p, commentEnd ∉ p ∧
      ∀ istr, skipWhitespace (pre ++ istr) = skipComment true (p ++ istr) := by
  obtain ⟨p, hp⟩ := List.head?_eq_some_iff.mp h.start
  refine ⟨p, fun hmem => h.oneLine ?_, fun istr => ?_⟩
  · have hdrop : commentEnd ∈ pre.dropWhile isspace := hp ▸ List.mem_cons_of_mem _ hmem
    exact (List.dropWhile_suffix _).subset hdrop
  · have hblanks : ∀ c ∈ pre.takeWhile isspace, isspace c = true :=
      List.all_eq_true.mp List.all_takeWhile
    rw [← List.takeWhile_append_dropWhile (p := isspace) (l := pre), hp, List.append_assoc,
      skipWhitespace_blanks hblanks, List.cons_append, skipWhitespace, if_neg (by decide),
      if_neg (by simp)]

/-- Lines behind a prefix of comments are passed over, up to the end of an empty line. Behind a
start of a comment that is a line by itself its end belongs to the comment, which then takes in
the next line too. -/
theorem skip_commentedLines (hpre : IsCommentPrefix pre)
    (hlines : ∀ line ∈ lines, commentEnd ∉ line) (rest : CText) :
    skipWhitespace ((lines.flatMap fun line => pre ++ (line ++ [commentEnd])) ++
        commentEnd :: rest) = skipWhitespace rest ∧
      skipComment false ((lines.flatMap fun line => pre ++ (line ++ [commentEnd])) ++
        commentEnd :: rest) = skipWhitespace rest := by
  induction lines with
  | nil => exact ⟨skipWhitespace_blank (by decide), by simp [skipComment]⟩
  | cons line lines ih =>
      obtain ⟨hblank, hcomment⟩ := ih fun x hx => hlines x (List.mem_cons_of_mem line hx)
      have hline := hlines line List.mem_cons_self
      have htext : ((line :: lines).flatMap fun line => pre ++ (line ++ [commentEnd])) ++
          commentEnd :: rest = pre ++ (line ++ commentEnd ::
            ((lines.flatMap fun line => pre ++ (line ++ [commentEnd])) ++ commentEnd :: rest)) := by
        simp
      rw [htext]
      constructor
      · obtain ⟨p, hp, hskip⟩ := hpre.skipWhitespace_append
        rw [hskip, ← List.append_assoc]
        rcases hempty : p ++ line with _ | ⟨first, text⟩
        · rw [List.nil_append, skipComment, if_pos rfl, hcomment]
        · have htextEnd : commentEnd ∉ text := fun hmem => by
            have hall : commentEnd ∈ p ++ line := hempty ▸ List.mem_cons_of_mem first hmem
            exact (List.mem_append.mp hall).elim hp hline
          rw [List.cons_append, skipComment, if_pos rfl, skipComment_append htextEnd, hblank]
      · rw [← List.append_assoc, skipComment_append, hblank]
        simp [hpre.oneLine, hline]

/-- **Commented dumps.** A dump with a prefix that begins a comment changes nothing in a file,
if nothing in it goes over several lines. -/
theorem readInStream_fdumpWith (numText : ℚ → CText) (o : Object) (s : Input)
    (hpre : IsCommentPrefix pre) (hargv : ∀ arg ∈ o.argv.drop 1, commentEnd ∉ arg)
    (hvars : ∀ r ∈ regVars numText s, commentEnd ∉ r.1 ∧ commentEnd ∉ r.2) (rest : CText) :
    readInStream (fdumpWith numText pre o s ++ rest) = readInStream rest := by
  have hregistered : ∀ line ∈ [' '].intercalate regVarsTitle ::
      (regVars numText s).map fun r => r.1 ++ '=' :: r.2, commentEnd ∉ line := by
    intro line hline
    rcases List.mem_cons.mp hline with rfl | hline
    · decide
    · obtain ⟨r, hr, rfl⟩ := List.mem_map.mp hline
      have hne : commentEnd ≠ '=' := by decide
      simp [hvars r hr, hne]
  have htext : fdumpWith numText pre o s ++ rest =
      ((o.argv.drop 1).flatMap fun line => pre ++ (line ++ [commentEnd])) ++ commentEnd ::
        ((([' '].intercalate regVarsTitle ::
          (regVars numText s).map fun r => r.1 ++ '=' :: r.2).flatMap fun line =>
            pre ++ (line ++ [commentEnd])) ++ commentEnd :: rest) := by
    have hend : commentEnd = '\n' := rfl
    simp [fdumpWith, printArguments, printRegVars, List.flatMap_map, hend]
  have hskip : skipWhitespace (fdumpWith numText pre o s ++ rest) = skipWhitespace rest := by
    rw [htext, (skip_commentedLines hpre hargv _).1, (skip_commentedLines hpre hregistered _).1]
  rw [readInStream, readInStream, bruteTokens_congr hskip]

end Comment

/-- A number without a fraction. -/
def wholeNumText (x : ℚ) : CText := (toString x.floor).toList

theorem dump_of_comments :
    readInStream (fdumpWith wholeNumText " #".toList
      { Object.initial "f".toList with argv := ["f".toList, [], "x=1".toList] }
      (Input.new.registerVar .int "n" (5 : ℤ)) ++ "y=2\n".toList) =
      readInStream "y=2\n".toList := by
  have hregistered : regVars wholeNumText (Input.new.registerVar .int "n" (5 : ℤ)) =
      [("n".toList, "5".toList)] := by decide
  refine readInStream_fdumpWith wholeNumText _ _ (by decide) (by decide) ?_ _
  rw [hregistered]
  decide

/-! ### Lines that are read as they are written -/

/-- A character that stands for itself in a value. -/
def isValueChar (c : Char) : Bool := isBare c && c ≠ nul && c ≠ Char.ofNat 255

/-- A character of a name that is not taken for anything else. -/
def isNameChar (c : Char) : Bool := isValueChar c && c ≠ '[' && c ≠ '='

def IsBareName (t : CText) : Prop := t ≠ [] ∧ ∀ c ∈ t, isNameChar c = true

def IsBareValue (t : CText) : Prop := ∀ c ∈ t, isValueChar c = true

/-- A line without quotes. -/
def IsBareLine : Line → Prop
  | .blank => True
  | .comment _ text => commentEnd ∉ text
  | .label name => LabelEnds name ∧ ∀ c ∈ name, isNameChar c = true
  | .assignment name value => IsBareName name ∧ IsBareValue value
  | .argument text => IsBareName text

instance (t : CText) : Decidable (IsBareName t) :=
  decidable_of_iff (t ≠ [] ∧ t.all isNameChar = true) (and_congr_right' List.all_eq_true)

instance (t : CText) : Decidable (IsBareValue t) :=
  decidable_of_iff (t.all isValueChar = true) List.all_eq_true

instance : (line : Line) → Decidable (IsBareLine line)
  | .blank => .isTrue trivial
  | .comment _ _ => inferInstanceAs (Decidable (_ ∉ _))
  | .label name =>
      decidable_of_iff (LabelEnds name ∧ name.all isNameChar = true)
        (and_congr_right' List.all_eq_true)
  | .assignment _ _ => inferInstanceAs (Decidable (_ ∧ _))
  | .argument _ => inferInstanceAs (Decidable (IsBareName _))

section Bare

variable {t name value rest : CText} {line : Line}

theorem isValueChar_iff {c : Char} :
    isValueChar c = true ↔ isBare c = true ∧ c ≠ nul ∧ c ≠ Char.ofNat 255 := by
  simp [isValueChar, and_assoc]

theorem isNameChar_iff {c : Char} :
    isNameChar c = true ↔ isValueChar c = true ∧ c ≠ '[' ∧ c ≠ '=' := by
  simp [isNameChar, and_assoc]

theorem IsBareName.isValue (h : IsBareName t) : IsBareValue t :=
  fun c hc => (isNameChar_iff.mp (h.2 c hc)).1

theorem IsBareValue.notMem (h : IsBareValue t) {c : Char} (hc : isValueChar c = false) : c ∉ t :=
  fun hmem => Bool.false_ne_true (hc.symm.trans (h c hmem))

theorem notMem_of_isNameChar (h : ∀ c ∈ t, isNameChar c = true) {c : Char}
    (hc : isNameChar c = false) : c ∉ t :=
  fun hmem => Bool.false_ne_true (hc.symm.trans (h c hmem))

theorem IsBareValue.written (h : IsBareValue t) : written t = t :=
  if_pos (List.all_eq_true.mpr fun c hc => (isValueChar_iff.mp (h c hc)).1)

theorem IsBareValue.isText (h : IsBareValue t) : IsText t := fun hin =>
  h.notMem (by decide) (hin.subset (List.mem_cons_self : '$' ∈ ['$', '{']))

theorem IsBareValue.isToken (h : IsBareValue t) (hne : t ≠ []) : IsToken t := by
  obtain ⟨c, rest, rfl⟩ := List.exists_cons_of_ne_nil hne
  refine ⟨?_, fun hlast => h.notMem (by decide) (List.mem_of_getLast? hlast)⟩
  have hc := (isValueChar_iff.mp (h c List.mem_cons_self)).2.2
  simp [isEnd, hc]

theorem isBareValue_singleton {c : Char} (hc : isValueChar c = true) : IsBareValue [c] :=
  List.forall_mem_singleton.mpr hc

theorem IsBareValue.append {t' : CText} (h : IsBareValue t) (h' : IsBareValue t') :
    IsBareValue (t ++ t') := fun c hc => (List.mem_append.mp hc).elim (h c) (h' c)

theorem isValueChar_of_isDigit {c : Char} (h : c.isDigit = true) : isValueChar c = true := by
  have hne : ∀ x : Char, x.isDigit = false → c ≠ x := by
    rintro x hx rfl
    exact Bool.false_ne_true (hx.symm.trans h)
  simp (disch := decide) [isValueChar, isBare, isPlain, isBlank, isspace, hne]

theorem isBareValue_argcText (argc : ℕ) : IsBareValue (argcText argc) := fun _ hc =>
  isValueChar_of_isDigit (Nat.isDigit_of_mem_toDigits (by decide) (by decide) hc)

theorem argcText_ne_nil (argc : ℕ) : argcText argc ≠ [] := by
  rw [argcText]
  exact Nat.toDigits_ne_nil

theorem IsBareName.head_ne (h : IsBareName t) {c : Char} (hc : isNameChar c = false) :
    t.head? ≠ some c := fun hhead =>
  notMem_of_isNameChar h.2 hc (List.mem_of_head? hhead)

/-- What stands in a line without quotes. -/
theorem arguments_bare (h : IsBareLine line) :
    ∀ arg ∈ line.arguments, IsBareValue arg ∧ arg ≠ [] ∧ arg ≠ ['='] := by
  intro arg harg
  cases line with
  | blank => exact absurd harg List.not_mem_nil
  | comment first text => exact absurd harg List.not_mem_nil
  | label name =>
      obtain rfl := List.mem_singleton.mp harg
      have hname : IsBareValue name := fun c hc => (isNameChar_iff.mp (h.2 c hc)).1
      have hopen : IsBareValue ['['] := isBareValue_singleton (by decide)
      have hclose : IsBareValue [']'] := isBareValue_singleton (by decide)
      exact ⟨hopen.append (hname.append hclose), by simp, by simp⟩
  | assignment name value =>
      obtain rfl := List.mem_singleton.mp harg
      have hequals : IsBareValue ['='] := isBareValue_singleton (by decide)
      refine ⟨h.1.isValue.append (hequals.append h.2), by simp, fun heq => ?_⟩
      refine h.1.head_ne (c := '=') (by decide) ?_
      have hhead : (name ++ '=' :: value).head? = name.head? :=
        List.head?_append_of_ne_nil _ h.1.1
      rw [← hhead, heq]
      rfl
  | argument text =>
      obtain rfl := List.mem_singleton.mp harg
      exact ⟨h.isValue, h.1, fun heq => h.head_ne (c := '=') (by decide) (by rw [heq]; rfl)⟩

theorem ok_of_bare (h : IsBareLine line) : line.Ok := by
  cases line with
  | blank => trivial
  | comment first text => exact h
  | label name =>
      have hname : IsBareValue name := fun c hc => (isNameChar_iff.mp (h.2 c hc)).1
      exact ⟨h.1, hname.isText, hname.notMem (by decide), notMem_of_isNameChar h.2 (by decide)⟩
  | assignment name value =>
      have hall := (arguments_bare h _ (List.mem_singleton_self _)).1
      refine ⟨h.1.isValue.isToken h.1.1, h.1.head_ne (by decide), h.1.isValue.notMem (by decide),
        notMem_of_isNameChar h.1.2 (by decide), ?_, hall.isText, h.2.notMem (by decide)⟩
      exact (em (value = [])).imp id h.2.isToken
  | argument text =>
      exact ⟨h.isValue.isToken h.1, h.isValue.isText, isLabel_eq_false (h.head_ne (by decide)),
        notMem_of_isNameChar h.2 (by decide)⟩

theorem bare_inSection (h : IsBareLine line) {sec : CText}
    (hsec : ∀ c ∈ sec, isNameChar c = true) : IsBareLine (line.inSection sec) := by
  have hname : ∀ {t : CText}, IsBareName t → IsBareName (sec ++ t) := fun {t} ht =>
    ⟨by simp [ht.1], fun c hc => (List.mem_append.mp hc).elim (hsec c) (ht.2 c)⟩
  cases line with
  | assignment name value => exact ⟨hname h.1, h.2⟩
  | argument text => exact hname h
  | _ => exact h

theorem bare_storedLines {lines : List Line} (h : ∀ line ∈ lines, IsBareLine line)
    {stack : List CText} (hstack : ∀ s ∈ stack, ∀ c ∈ s, isNameChar c = true) :
    ∀ line ∈ storedLines stack lines, IsBareLine line := by
  induction lines generalizing stack with
  | nil => exact fun _ hline => absurd hline List.not_mem_nil
  | cons line lines ih =>
      have hbare := h line List.mem_cons_self
      have henter : ∀ s ∈ line.enter stack, ∀ c ∈ s, isNameChar c = true := by
        cases line with
        | label name =>
            intro s hs
            rcases mem_labelTarget hs with hs | hs
            · exact hstack s hs
            · exact fun c hc => hbare.2 c (hs c hc)
        | _ => exact hstack
      have hsec : ∀ c ∈ sectionText stack, isNameChar c = true := by
        intro c hc
        obtain ⟨s, hs, hmem⟩ := List.mem_flatMap.mp hc
        rcases List.mem_append.mp hmem with hmem | hmem
        · exact hstack s hs c hmem
        · obtain rfl := List.mem_singleton.mp hmem
          decide
      intro x hx
      rcases List.mem_cons.mp hx with rfl | hx
      · exact bare_inSection hbare hsec
      · exact ih (fun y hy => h y (List.mem_cons_of_mem line hy)) henter x hx

/-! ### The tokens of a dump -/

theorem joinAssignments_eq_self {tokens : List CText} (h : ['='] ∉ tokens) :
    joinAssignments tokens = tokens := by
  induction tokens with
  | nil => rfl
  | cons token tokens ih =>
      have htokens : ['='] ∉ tokens := fun hmem => h (List.mem_cons_of_mem token hmem)
      rw [joinAssignments_cons fun hhead => htokens (List.mem_of_head? hhead), ih htokens]

/-- Words that are written without quotes are the tokens. -/
theorem bruteTokens_words {words : List CText} {d : Char} (hd : isBlank d = true)
    (h : ∀ w ∈ words, IsBareValue w ∧ w ≠ []) (rest : CText) :
    bruteTokens ((words.flatMap fun w => w ++ [d]) ++ rest) = words ++ bruteTokens rest := by
  induction words with
  | nil => rfl
  | cons w words ih =>
      obtain ⟨hbare, hne⟩ := h w List.mem_cons_self
      have hw := bruteTokens_written (hbare.isToken hne) hd
        ((words.flatMap fun w => w ++ [d]) ++ rest)
      rw [hbare.written] at hw
      rw [List.flatMap_cons, List.append_assoc, List.append_assoc, List.singleton_append, hw,
        ih fun x hx => h x (List.mem_cons_of_mem w hx), List.cons_append]

end Bare

/-! ### Reading a dump -/

/-- The lines that are printed in front of the arguments. -/
def argcLines (argc : ℕ) (name : CText) : List Line :=
  [.assignment "argc".toList (argcText argc), .argument name]

/-- What is registered, as lines. -/
def regVarsLines (vars : List (CText × CText)) : List Line :=
  regVarsTitle.map Line.argument ++ vars.map fun r => Line.assignment r.1 r.2

/-- The lines of the dump of a file. -/
def dumpLines (name : CText) (lines : List Line) (vars : List (CText × CText)) : List Line :=
  argcLines ((lines.flatMap Line.arguments).length + 1) name ++
    (storedLines [] lines ++ regVarsLines vars)

/-- What is assigned by the dump of a file: the number of arguments comes first, the names are
in their sections twice, and what is registered comes last, in the section that is open at the
end. -/
def dumpMeaning (lines : List Line) (vars : List (CText × CText)) : List (CText × CText) :=
  ("argc".toList, argcText ((lines.flatMap Line.arguments).length + 1)) ::
    (((places [] lines).filterMap fun p => ((p.2.inSection p.1).inSection p.1).assigned) ++
      vars.map fun r => (sectionText (lines.foldl (fun stack line => line.enter stack) []) ++ r.1,
        r.2))

theorem places_append (stack : List CText) (lines more : List Line) :
    places stack (lines ++ more) = places stack lines ++
      places (lines.foldl (fun stack line => line.enter stack) stack) more := by
  induction lines generalizing stack with
  | nil => rfl
  | cons line lines ih =>
      rw [List.cons_append, places, ih, List.foldl_cons]
      rfl

@[simp] theorem enter_inSection (line : Line) (sec : CText) (stack : List CText) :
    (line.inSection sec).enter stack = line.enter stack := by
  cases line <;> rfl

/-- Lines as they are stored open the sections they are in. -/
theorem places_storedLines (stack : List CText) (lines : List Line) :
    places stack (storedLines stack lines) =
        (places stack lines).map (fun p => (p.1, p.2.inSection p.1)) ∧
      (storedLines stack lines).foldl (fun stack line => line.enter stack) stack =
        lines.foldl (fun stack line => line.enter stack) stack := by
  induction lines generalizing stack with
  | nil => exact ⟨rfl, rfl⟩
  | cons line lines ih =>
      obtain ⟨hplaces, hstack⟩ := ih (line.enter stack)
      have hcons : storedLines stack (line :: lines) =
          line.inSection (sectionText stack) :: storedLines (line.enter stack) lines := rfl
      rw [hcons, places, enter_inSection, hplaces, List.foldl_cons, enter_inSection, hstack]
      exact ⟨rfl, rfl⟩

theorem places_of_enter {stack : List CText} {lines : List Line}
    (h : ∀ line ∈ lines, line.enter stack = stack) :
    places stack lines = lines.map fun line => (sectionText stack, line) := by
  induction lines with
  | nil => rfl
  | cons line lines ih =>
      rw [places, h line List.mem_cons_self, ih fun x hx => h x (List.mem_cons_of_mem line hx)]
      rfl

theorem meaning_append {front : List Line} (h : ∀ line ∈ front, line.enter [] = [])
    (lines : List Line) :
    meaning (front ++ lines) = front.filterMap Line.assigned ++ meaning lines := by
  have hstack : front.foldl (fun stack line => line.enter stack) [] = [] := by
    induction front with
    | nil => rfl
    | cons line front ih =>
        rw [List.foldl_cons, h line List.mem_cons_self,
          ih fun x hx => h x (List.mem_cons_of_mem line hx)]
  have hroot : ∀ line ∈ front, (line.inSection (sectionText [])).assigned = line.assigned := by
    intro line _
    cases line <;> rfl
  rw [meaning, meaning, storedLines, storedLines, places_append, hstack, places_of_enter h,
    List.map_append, List.filterMap_append, List.map_map, List.filterMap_map]
  exact congrArg (· ++ _) (List.filterMap_congr hroot)

theorem meaning_dump (name : CText) (lines : List Line) (vars : List (CText × CText)) :
    meaning (dumpLines name lines vars) = dumpMeaning lines vars := by
  obtain ⟨hplaces, hstack⟩ := places_storedLines [] lines
  have hfront : ∀ argc, ∀ line ∈ argcLines argc name, line.enter [] = [] := by
    simp [argcLines, Line.enter]
  have hreg : ∀ line ∈ regVarsLines vars, ∀ stack, line.enter stack = stack := by
    intro line hline stack
    rcases List.mem_append.mp hline with hline | hline
    · obtain ⟨word, -, rfl⟩ := List.mem_map.mp hline
      rfl
    · obtain ⟨r, -, rfl⟩ := List.mem_map.mp hline
      rfl
  rw [dumpLines, meaning_append (hfront _), meaning, storedLines, places_append, hplaces, hstack,
    places_of_enter fun line hline => hreg line hline _]
  simp [argcLines, dumpMeaning, regVarsLines, List.filterMap_append, List.map_append,
    List.filterMap_map, Function.comp_def, Line.inSection, Line.assigned]

/-- Outside of sections the names of a dump are those of the file. -/
theorem dumpMeaning_root {lines : List Line} (h : ∀ p ∈ places [] lines, p.1 = []) :
    dumpMeaning lines [] =
      ("argc".toList, argcText ((lines.flatMap Line.arguments).length + 1)) :: meaning lines := by
  have htwice : ∀ p ∈ places [] lines,
      ((p.2.inSection p.1).inSection p.1).assigned = (p.2.inSection p.1).assigned := by
    intro p hp
    rw [h p hp]
    cases p.2 <;> rfl
  rw [dumpMeaning, meaning, storedLines, List.filterMap_map, List.map_nil, List.append_nil]
  exact congrArg _ (List.filterMap_congr htwice)

theorem lastOf_cons_of_ne {name : CText} {a : CText × CText} (h : a.1 ≠ name)
    (assignments : List (CText × CText)) :
    lastOf name (a :: assignments) = lastOf name assignments := by
  rw [lastOf, lastOf, List.reverse_cons, List.find?_append, List.find?_singleton, if_neg (by simpa),
    Option.or_none]

theorem ok_regVarsLines {vars : List (CText × CText)}
    (h : ∀ r ∈ vars, IsBareName r.1 ∧ IsBareValue r.2) : ∀ line ∈ regVarsLines vars, line.Ok := by
  intro line hline
  rcases List.mem_append.mp hline with hline | hline
  · obtain ⟨word, hword, rfl⟩ := List.mem_map.mp hline
    have hall : ∀ w ∈ regVarsTitle, w ≠ [] ∧ IsBareValue w ∧ isLabel w = false ∧ '=' ∉ w := by
      decide
    obtain ⟨hne, hvalue, hlabel, hequals⟩ := hall word hword
    exact ⟨hvalue.isToken hne, hvalue.isText, hlabel, hequals⟩
  · obtain ⟨r, hr, rfl⟩ := List.mem_map.mp hline
    have hbare : IsBareLine (.assignment r.1 r.2) := h r hr
    exact ok_of_bare hbare

theorem bare_arguments {lines : List Line} (h : ∀ line ∈ lines, IsBareLine line) :
    ∀ w ∈ lines.flatMap Line.arguments, IsBareValue w ∧ w ≠ [] ∧ w ≠ ['='] := by
  intro w hw
  obtain ⟨line, hline, hmem⟩ := List.mem_flatMap.mp hw
  exact arguments_bare (h line hline) w hmem

theorem bare_regVarsTitle : ∀ w ∈ regVarsTitle, IsBareValue w ∧ w ≠ [] ∧ w ≠ ['='] := by decide

theorem bare_registered {vars : List (CText × CText)}
    (h : ∀ r ∈ vars, IsBareName r.1 ∧ IsBareValue r.2) :
    ∀ w ∈ vars.map fun r => r.1 ++ '=' :: r.2, IsBareValue w ∧ w ≠ [] ∧ w ≠ ['='] := by
  intro w hw
  obtain ⟨r, hr, rfl⟩ := List.mem_map.mp hw
  have hbare : IsBareLine (.assignment r.1 r.2) := h r hr
  exact arguments_bare hbare _ (List.mem_singleton_self _)

/-- Blanks stand between the words of the title, and line ends between all others. -/
theorem printArguments_append_printRegVars {o : Object} {args : List CText}
    (hargv : o.argv.drop 1 = args) (vars : List (CText × CText)) :
    printArguments [] o ++ printRegVars [] vars =
      (args.flatMap fun w => w ++ ['\n']) ++ '\n' ::
        ((regVarsTitle.dropLast.flatMap fun w => w ++ [' ']) ++
          (((regVarsTitle.drop 4).flatMap fun w => w ++ ['\n']) ++
            (((vars.map fun r => r.1 ++ '=' :: r.2).flatMap fun w => w ++ ['\n']) ++ ['\n']))) := by
  have htitle : [' '].intercalate regVarsTitle ++ ['\n'] =
      (regVarsTitle.dropLast.flatMap fun w => w ++ [' ']) ++
        (regVarsTitle.drop 4).flatMap fun w => w ++ ['\n'] := by decide
  rw [printArguments, printRegVars, hargv, List.nil_append, htitle]
  simp [List.flatMap_map]

/-- What is printed behind a title is read as the lines that are stored and what is
registered. -/
theorem bruteTokens_dump {lines : List Line} (h : ∀ line ∈ lines, IsBareLine line)
    {vars : List (CText × CText)} (hvars : ∀ r ∈ vars, IsBareName r.1 ∧ IsBareValue r.2)
    {o : Object} (hargv : o.argv.drop 1 = lines.flatMap Line.arguments) :
    ['='] ∉ (lines ++ regVarsLines vars).flatMap Line.arguments ∧
      bruteTokens (printArguments [] o ++ printRegVars [] vars) =
        (lines ++ regVarsLines vars).flatMap Line.arguments := by
  have hnewline : ∀ rest, bruteTokens ('\n' :: rest) = bruteTokens rest := fun rest =>
    bruteTokens_congr (skipWhitespace_blank (by decide))
  have hstored := bare_arguments h
  have hregistered := bare_registered hvars
  have htitle := bare_regVarsTitle
  have hwords : (lines ++ regVarsLines vars).flatMap Line.arguments =
      lines.flatMap Line.arguments ++ (regVarsTitle ++ vars.map fun r => r.1 ++ '=' :: r.2) := by
    rw [regVarsLines, List.flatMap_append, List.flatMap_append, List.flatMap_map,
      List.flatMap_map, List.map_eq_flatMap]
    rfl
  have hfirst : ∀ w ∈ regVarsTitle.dropLast, IsBareValue w ∧ w ≠ [] := fun w hw =>
    ⟨(htitle w (List.mem_of_mem_dropLast hw)).1, (htitle w (List.mem_of_mem_dropLast hw)).2.1⟩
  have hlast : ∀ w ∈ regVarsTitle.drop 4, IsBareValue w ∧ w ≠ [] := fun w hw =>
    ⟨(htitle w (List.mem_of_mem_drop hw)).1, (htitle w (List.mem_of_mem_drop hw)).2.1⟩
  rw [hwords]
  constructor
  · simp only [List.mem_append, not_or]
    exact ⟨fun hmem => (hstored _ hmem).2.2 rfl, fun hmem => (htitle _ hmem).2.2 rfl,
      fun hmem => (hregistered _ hmem).2.2 rfl⟩
  · rw [printArguments_append_printRegVars hargv,
      bruteTokens_words rfl fun w hw => ⟨(hstored w hw).1, (hstored w hw).2.1⟩, hnewline,
      bruteTokens_words rfl hfirst, bruteTokens_words rfl hlast,
      bruteTokens_words rfl fun w hw => ⟨(hregistered w hw).1, (hregistered w hw).2.1⟩, hnewline,
      bruteTokens_nil, List.append_nil]
    rfl

theorem bare_argcLines {name : CText} (hname : IsBareName name) (argc : ℕ) :
    ∀ line ∈ argcLines argc name, IsBareLine line := by
  have hargc : IsBareName "argc".toList := by decide
  intro line hline
  rcases List.mem_pair.mp hline with rfl | rfl
  · exact ⟨hargc, isBareValue_argcText _⟩
  · exact hname

/-- The lines that are printed in front of the arguments. -/
theorem print_eq {name : CText} (hname : IsBareName name) {o : Object} {args : List CText}
    (hargv : o.argv = name :: args) :
    print o = fileText (argcLines (args.length + 1) name) ++ printArguments [] o := by
  have hargc : written "argc".toList = "argc".toList := by decide
  have hcount : ∀ t : CText, t ≠ [] → IsBareValue t →
      (Line.assignment "argc".toList t).text = "argc = ".toList ++ (t ++ ['\n']) := by
    intro t hne ht
    rw [Line.text, if_neg hne, hargc, ht.written]
    rfl
  have hfile : (Line.argument name).text = name ++ ['\n'] := by
    rw [Line.text, hname.isValue.written]
  unfold print
  rw [printArguments, argcLines, fileText, List.flatMap_cons, List.flatMap_singleton,
    hcount _ (argcText_ne_nil _) (isBareValue_argcText _), hfile, hargv, List.length_cons,
    List.flatMap_cons, List.drop_one, List.tail_cons]
  simp only [List.append_assoc, List.nil_append]

/-- A dump is read as its lines. -/
theorem readInStream_fdump {name : CText} (hname : IsBareName name) {lines : List Line}
    (h : ∀ line ∈ lines, IsBareLine line) (numText : ℚ → CText) {s : Input}
    (hvars : ∀ r ∈ regVars numText s, IsBareName r.1 ∧ IsBareValue r.2) {o : Object}
    (hargv : o.argv = name :: (storedLines [] lines).flatMap Line.arguments) :
    readInStream (fdump numText o s) =
      (dumpLines name lines (regVars numText s)).flatMap Line.arguments := by
  have hbare : ∀ line ∈ storedLines [] lines, IsBareLine line :=
    bare_storedLines h fun _ hs => absurd hs List.not_mem_nil
  obtain ⟨hequals, htokens⟩ := bruteTokens_dump hbare hvars (o := o) (by rw [hargv]; rfl)
  have hfront : ∀ line ∈ argcLines ((lines.flatMap Line.arguments).length + 1) name, line.Ok :=
    fun line hline => ok_of_bare (bare_argcLines hname _ line hline)
  have htext := print_eq hname hargv
  rw [length_storedLines] at htext
  rw [readInStream, fdump, htext, List.append_assoc, bruteTokens_fileText hfront, htokens,
    (joinAssignments_lines hfront fun hhead => hequals (List.mem_of_head? hhead)).2,
    joinAssignments_eq_self hequals, dumpLines, ← List.flatMap_append]

section Reload

variable {d : Doubles} {name : CText} {lines : List Line} {o : Object}

/-- **Reading a dump.** Of the dump of a file without quotes an object is made again. A name in
it has the value that the file or the registered defaults give to it last, in its sections
twice, and `argc` is the number of arguments if nothing else is assigned to it. So a name other
than this one has the value it had if the file has no sections and nothing is registered. -/
theorem construct_fdump (hname : IsBareName name) (h : ∀ line ∈ lines, IsBareLine line)
    (ho : Settles (fun n => construct d n name (readInStream (fileText lines))) o)
    (numText : ℚ → CText) (s : Input)
    (hvars : ∀ r ∈ regVars numText s, IsBareName r.1 ∧ IsBareValue r.2) (dumpName : CText) :
    ∃ o', Settles (fun n => construct d n dumpName (readInStream (fdump numText o s))) o' ∧
      (∀ varName, findVariable [] varName o'.scope.vars =
          (lastOf (cStr varName) (dumpMeaning lines (regVars numText s))).map
            (Variable.take (cStr varName))) ∧
      ((∀ p ∈ places [] lines, p.1 = []) → regVars numText s = [] →
        ∀ varName, cStr varName ≠ "argc".toList →
          findVariable [] varName o'.scope.vars = findVariable [] varName o.scope.vars) := by
  obtain ⟨o₁, ho₁, hargv, hfile⟩ :=
    construct_fileText d (fun line hline => ok_of_bare (h line hline)) name
  obtain rfl := ho.unique ho₁
  have hbare : ∀ line ∈ storedLines [] lines, IsBareLine line :=
    bare_storedLines h fun _ hs => absurd hs List.not_mem_nil
  have hok : ∀ line ∈ dumpLines name lines (regVars numText s), line.Ok := by
    intro line hline
    rcases List.mem_append.mp hline with hline | hline
    · exact ok_of_bare (bare_argcLines hname _ line hline)
    · rcases List.mem_append.mp hline with hline | hline
      · exact ok_of_bare (hbare line hline)
      · exact ok_regVarsLines hvars line hline
  rw [readInStream_fdump hname h numText hvars hargv]
  obtain ⟨o', ho', -, hfind⟩ := construct_lines d hok dumpName
  rw [meaning_dump] at hfind
  refine ⟨o', ho', hfind, fun hroot hnothing varName hvarName => ?_⟩
  rw [hfind, hnothing, dumpMeaning_root hroot, lastOf_cons_of_ne hvarName.symm, hfile]

end Reload

/-- A dump gives a name its section twice, and the number of arguments as a value. -/
theorem dump_of_section :
    ∃ o o', Settles (fun n => construct wholeDoubles n "f".toList
        (readInStream (fileText [.label "s".toList, .assignment "x".toList "1".toList]))) o ∧
      Settles (fun n => construct wholeDoubles n "dump".toList
        (readInStream (fdump wholeNumText o Input.new))) o' ∧
      findVariable [] "s/s/x".toList o'.scope.vars =
        some (Variable.take "s/s/x".toList "1".toList) ∧
      findVariable [] "s/x".toList o'.scope.vars = none ∧
      findVariable [] "argc".toList o'.scope.vars =
        some (Variable.take "argc".toList "3".toList) := by
  have hbare : ∀ line ∈ [Line.label "s".toList, .assignment "x".toList "1".toList],
      IsBareLine line := by decide
  obtain ⟨o, ho, -, -⟩ :=
    construct_fileText wholeDoubles (fun line hline => ok_of_bare (hbare line hline)) "f".toList
  have hregistered : regVars wholeNumText Input.new = [] := by decide
  obtain ⟨o', ho', hfind, -⟩ := construct_fdump (by decide) hbare ho wholeNumText Input.new
    (by rw [hregistered]; decide) "dump".toList
  rw [hregistered] at hfind
  exact ⟨o, o', ho, ho', (hfind _).trans (by decide), (hfind _).trans (by decide),
    (hfind _).trans (by decide)⟩

end Grvy.Lookup
