import Grvy.Lookup.FileText

/-!
Texts that a Fortran program passes to the input class, and gets from it.

A text of Fortran has a length and no end mark, so each is copied, and what is found is copied
into the storage of the caller. A read makes sure that there is enough of it; a registered
default is copied without a look at the storage.
-/

namespace Grvy.Lookup

open Grvy.Lib Grvy.GetPot

/-! ### The interface -/

/-- `grvy_f2c_char`. Blanks at the end are kept. -/
def f2cChar (input : CText) : String := String.ofList (cStr input)

/-- `strncpy` of a whole text into storage of the caller. There is no result if a character is
written behind the end. -/
def strncpy (value text : CText) : Option CText :=
  if value.length < text.length then none else some (text ++ value.drop text.length)

def blanks (n : ℕ) : CText := List.replicate n ' '

/-- `*flag`, and the storage of the caller. -/
structure TextAnswer where
  flag : ℕ
  value : CText
  deriving DecidableEq

/-- The end of a read: `tmpvar` goes into storage that is empty. There is no result if it has
not been set. -/
def fitText (code : ℕ) (tmpvar : Option String) (storage : ℕ) : Option TextAnswer :=
  tmpvar.bind fun tmpvar =>
    let text := cStr tmpvar.toList
    if storage < text.length then some { flag := 0, value := blanks storage }
    else (strncpy (blanks storage) text).map fun value => { flag := code, value := value }

/-- The calls with texts. -/
inductive TextCall where
  | registerChar (var value : CText)
  | registerGetChar (var value : CText)
  | freadChar (var value : CText)
  | freadCharIvec (var value : CText) (elem : CInt)

variable (scan : String → Option ℚ)

/-- A call on the input object. -/
def TextCall.run (s : Input) : TextCall → Option (TextAnswer × Input)
  | registerChar var value =>
      some ({ flag := 1, value := value }, s.registerVar .string (f2cChar var) (f2cChar value))
  | registerGetChar var value => do
      let tmpvar ← s.getVar .string (f2cChar var)
      let value ← strncpy value (cStr tmpvar.toList)
      some ({ flag := 1, value := value }, s)
  | freadChar var value =>
      let r := s.readVar .string (f2cChar var) Kind.string.getDefault
      (fitText r.1 r.2.1 value.length).map fun answer => (answer, r.2.2)
  | freadCharIvec var value elem =>
      -- from Fortran to C style indexing
      let r := s.readVarIVecText scan (f2cChar var) (elem - 1)
      (fitText r.1 r.2 value.length).map fun answer => (answer, s)

def runTexts : List TextCall → Input → Option (List TextAnswer × Input)
  | [], s => some ([], s)
  | call :: calls, s => do
      let (answer, s) ← call.run scan s
      let (answers, s) ← runTexts calls s
      some (answer :: answers, s)

/-! ### What the calls come to -/

/-- What a call registers under a name. -/
def TextCall.registers (name : String) : TextCall → Option String
  | registerChar var value => if f2cChar var = name then some (f2cChar value) else none
  | _ => none

/-- The text under a name after some calls. -/
def textOf (s : Input) (before : List TextCall) (name : String) : Option String :=
  (before.reverse.findSome? (TextCall.registers name)).or (s.getVar .string name)

/-- What a read puts into storage of this size: the text and blanks, or blanks only. -/
def fitted (code : ℕ) (text : String) (storage : ℕ) : TextAnswer :=
  let text := cStr text.toList
  if storage < text.length then { flag := 0, value := blanks storage }
  else { flag := code, value := text ++ blanks (storage - text.length) }

/-- A read after some calls: its code, and the text that is found. -/
def readText (ifile : GetPot) (s : Input) (before : List TextCall) (name : String) :
    ℕ × String :=
  let text := ifile.get .string name Kind.string.getDefault
  if text = Kind.string.getDefault then
    match textOf s before name with
    | none => (0, text)
    | some registered => (1, registered)
  else (1, text)

/-- What a call gives back after some calls, all on an object that is `s` at the start. -/
def TextCall.answer (s : Input) (before : List TextCall) : TextCall → Option TextAnswer
  | registerChar _ value => some { flag := 1, value := value }
  | registerGetChar var value =>
      (textOf s before (f2cChar var)).map fun text =>
        { flag := 1, value := cStr text.toList ++ value.drop (cStr text.toList).length }
  | freadChar var value =>
      s.opened.map fun ifile =>
        let (code, text) := readText ifile s before (f2cChar var)
        fitted code text value.length
  | freadCharIvec var value elem =>
      s.opened.map fun ifile =>
        let text := ifile.getElement scan .string (f2cChar var) Kind.string.getDefault
          (elem - 1).toNat
        fitted (if text = Kind.string.getDefault then 0 else 1) text value.length

/-- The call keeps to memory that has been set and belongs to it: what is read has a file, and
what is got has been registered and fits into the storage. -/
def TextCall.Allowed (s : Input) (before : List TextCall) : TextCall → Prop
  | registerChar _ _ => True
  | registerGetChar var value =>
      ∃ text, textOf s before (f2cChar var) = some text ∧
        (cStr text.toList).length ≤ value.length
  | freadChar _ _ => s.opened.isSome = true
  | freadCharIvec _ _ _ => s.opened.isSome = true

/-! ### One call -/

section Calls

variable {scan} {s s' : Input} {before calls : List TextCall} {call : TextCall}

@[simp] theorem fitText_some (code : ℕ) (text : String) (storage : ℕ) :
    fitText code (some text) storage = some (fitted code text storage) := by
  rw [fitText, Option.bind_some, fitted]
  dsimp only
  split
  · rfl
  · next hfits =>
      rw [strncpy, blanks, List.length_replicate, if_neg hfits, List.drop_replicate]
      rfl

/-- The object after some calls. -/
structure After (s : Input) (before : List TextCall) (s' : Input) : Prop where
  opened : s'.opened = s.opened
  texts : ∀ name, s'.getVar .string name = textOf s before name

theorem after_nil (s : Input) : After s [] s := ⟨rfl, fun _ => rfl⟩

@[simp]
theorem textOf_concat (s : Input) (before : List TextCall) (call : TextCall) (name : String) :
    textOf s (before ++ [call]) name = (call.registers name).or (textOf s before name) := by
  rw [textOf, List.reverse_concat, List.findSome?_cons, textOf]
  cases call.registers name <;> rfl

/-- A call that registers nothing leaves the texts as they are. -/
theorem After.concat (h : After s before s') (hcall : ∀ name, call.registers name = none) :
    After s (before ++ [call]) s' where
  opened := h.opened
  texts name := by simp [hcall, h.texts]

theorem After.registerChar (h : After s before s') (var value : CText) :
    After s (before ++ [.registerChar var value])
      (s'.registerVar .string (f2cChar var) (f2cChar value)) where
  opened := h.opened
  texts name := by
    rw [textOf_concat, TextCall.registers]
    by_cases hname : f2cChar var = name
    · rw [if_pos hname, ← hname, Input.getVar_registerVar]
      rfl
    · rw [if_neg hname, Option.none_or, Input.getVar_registerVar_of_ne (Ne.symm hname), h.texts]

/-- A read without a default of an open file. -/
theorem After.readVar (h : After s before s') {ifile : GetPot} (hopened : s.opened = some ifile)
    (name : String) :
    s'.readVar .string name Kind.string.getDefault =
      ((readText ifile s before name).1, some (readText ifile s before name).2, s') := by
  rw [Input.readVar_opened (h.opened.trans hopened), Input.registerDefault_getDefault, h.texts,
    readText]
  split
  · next htext =>
      rw [htext]
      cases textOf s before name <;> rfl
  · rfl

theorem readVarIVecText_closed (h : s.opened = none) (name : String) (elem : CInt) :
    s.readVarIVecText scan name elem = (0, none) := by
  have hinit : s.initialized = false := by
    by_contra hinit
    rw [Input.opened, if_pos ((Bool.not_eq_false _).mp hinit)] at h
    have hsome := s.isSome_of_initialized ((Bool.not_eq_false _).mp hinit)
    rw [h] at hsome
    cases hsome
  rw [Input.readVarIVecText, Input.readVarIVec, dif_neg (by rw [hinit]; exact Bool.false_ne_true)]

theorem readVarIVecText_opened {ifile : GetPot} (h : s.opened = some ifile) (name : String)
    (elem : CInt) :
    s.readVarIVecText scan name elem =
      let text := ifile.getElement scan .string name Kind.string.getDefault elem.toNat
      (if text = Kind.string.getDefault then 0 else 1, some text) := by
  rw [Input.readVarIVecText, Input.readVarIVec_opened h]
  dsimp only
  split
  · next htext => rw [htext]
  · rfl

/-- A call that is allowed gives its answer. -/
theorem run_of_allowed (h : After s before s') (hallowed : call.Allowed s before) :
    ∃ answer s'', call.run scan s' = some (answer, s'') ∧
      call.answer scan s before = some answer ∧ After s (before ++ [call]) s'' := by
  cases call with
  | registerChar var value => exact ⟨_, _, rfl, rfl, h.registerChar var value⟩
  | registerGetChar var value =>
      obtain ⟨text, htext, hfits⟩ := hallowed
      refine ⟨_, s', ?_, by rw [TextCall.answer, htext]; rfl, h.concat fun _ => rfl⟩
      rw [TextCall.run, h.texts, htext, Option.bind_eq_bind, Option.bind_some, strncpy,
        if_neg (Nat.not_lt.mpr hfits)]
      rfl
  | freadChar var value =>
      obtain ⟨ifile, hopened⟩ := Option.isSome_iff_exists.mp hallowed
      refine ⟨_, s', ?_, by rw [TextCall.answer, hopened]; rfl, h.concat fun _ => rfl⟩
      rw [TextCall.run, h.readVar hopened]
      dsimp only
      rw [fitText_some]
      rfl
  | freadCharIvec var value elem =>
      obtain ⟨ifile, hopened⟩ := Option.isSome_iff_exists.mp hallowed
      refine ⟨_, s', ?_, by rw [TextCall.answer, hopened]; rfl, h.concat fun _ => rfl⟩
      rw [TextCall.run, readVarIVecText_opened (h.opened.trans hopened)]
      dsimp only
      rw [fitText_some]
      rfl

/-- A call that is not allowed has no result. -/
theorem run_of_not_allowed (h : After s before s') (hnot : ¬call.Allowed s before) :
    call.run scan s' = none := by
  cases call with
  | registerChar var value => exact absurd trivial hnot
  | registerGetChar var value =>
      rw [TextCall.run, h.texts]
      cases htext : textOf s before (f2cChar var) with
      | none => rfl
      | some text =>
          have hlong : value.length < (cStr text.toList).length :=
            Nat.not_le.mp fun hfits => hnot ⟨text, htext, hfits⟩
          rw [Option.bind_eq_bind, Option.bind_some, strncpy, if_pos hlong]
          rfl
  | freadChar var value =>
      have hclosed : s'.opened = none := h.opened.trans (Option.not_isSome_iff_eq_none.mp hnot)
      rw [TextCall.run, Input.readVar_closed hclosed]
      rfl
  | freadCharIvec var value elem =>
      have hclosed : s'.opened = none := h.opened.trans (Option.not_isSome_iff_eq_none.mp hnot)
      rw [TextCall.run, readVarIVecText_closed hclosed]
      rfl

/-! ### A run -/

/-- What holds of every call of a run after the calls before it. -/
theorem forall_split_cons {α : Type} {p : List α → α → Prop} {a : α} {l : List α} :
    (∀ before c after, a :: l = before ++ c :: after → p before c) ↔
      p [] a ∧ ∀ before c after, l = before ++ c :: after → p (a :: before) c := by
  constructor
  · intro h
    refine ⟨h [] a l rfl, fun before c after heq => h (a :: before) c after ?_⟩
    rw [heq, List.cons_append]
  · rintro ⟨ha, hl⟩ before c after heq
    cases before with
    | nil =>
        obtain ⟨rfl, -⟩ := List.cons.inj heq
        exact ha
    | cons b before =>
        obtain ⟨rfl, hrest⟩ := List.cons.inj heq
        exact hl before c after hrest

theorem runTexts_after (h : After s before s') (calls : List TextCall) :
    ((runTexts scan calls s').isSome = true ↔ ∀ before' call after,
        calls = before' ++ call :: after → call.Allowed s (before ++ before')) ∧
      ∀ answers s'', runTexts scan calls s' = some (answers, s'') → ∀ before' call after,
        calls = before' ++ call :: after →
          answers[before'.length]? = call.answer scan s (before ++ before') := by
  induction calls generalizing before s' with
  | nil => simp [runTexts]
  | cons call calls ih =>
      simp only [forall_split_cons, List.append_nil]
      by_cases hallowed : call.Allowed s before
      · obtain ⟨answer, s₁, hrun, hanswer, hafter⟩ :
            ∃ answer s₁, call.run scan s' = some (answer, s₁) ∧
              call.answer scan s before = some answer ∧ After s (before ++ [call]) s₁ :=
          run_of_allowed h hallowed
        obtain ⟨hsome, hanswers⟩ := ih hafter
        simp only [List.append_assoc, List.singleton_append] at hsome hanswers
        have hcons : runTexts scan (call :: calls) s' =
            (runTexts scan calls s₁).map fun r => (answer :: r.1, r.2) := by
          rw [runTexts, hrun, Option.bind_eq_bind, Option.bind_some, Option.map_eq_bind]
          rfl
        rw [hcons, Option.isSome_map, hsome, and_iff_right hallowed]
        refine ⟨Iff.rfl, fun answers s'' heq => ?_⟩
        obtain ⟨⟨rest, s₂⟩, hrest, heq'⟩ := Option.map_eq_some_iff.mp heq
        obtain ⟨rfl, rfl⟩ := Prod.mk.inj heq'
        exact ⟨hanswer.symm, fun before' c after hsplit => hanswers rest s₂ hrest _ _ _ hsplit⟩
      · have hnone : runTexts scan (call :: calls) s' = none := by
          rw [runTexts, run_of_not_allowed h hallowed]
          rfl
        rw [hnone]
        exact ⟨iff_of_false (by simp) fun hall => hallowed hall.1, by simp⟩

/-- **Texts of a Fortran program.** A run of calls stays within memory that has been set and
belongs to it if and only if a file is open for what is read, and what is got has been
registered and fits into the storage. Then each call gives what the calls before it and the
file make of it. -/
theorem runTexts_spec (scan : String → Option ℚ) (s : Input) (calls : List TextCall) :
    ((runTexts scan calls s).isSome = true ↔ ∀ before call after,
        calls = before ++ call :: after → call.Allowed s before) ∧
      ∀ answers s', runTexts scan calls s = some (answers, s') → ∀ before call after,
        calls = before ++ call :: after →
          answers[before.length]? = call.answer scan s before :=
  runTexts_after (after_nil s) calls

/-- A registered text of four characters is got into six, but goes behind the end of two. -/
theorem mesh_got :
    (∃ answers s', runTexts scanNumber [.registerChar "name".toList "mesh".toList,
        .registerGetChar "name".toList "xxxxxx".toList] .new = some (answers, s') ∧
      answers[1]? = some { flag := 1, value := "meshxx".toList }) ∧
    runTexts scanNumber [.registerChar "name".toList "mesh".toList,
      .registerGetChar "name".toList "xx".toList] .new = none := by
  have htext : textOf .new [.registerChar "name".toList "mesh".toList] (f2cChar "name".toList) =
      some "mesh" := by decide +kernel
  constructor
  · obtain ⟨hsome, hanswers⟩ := runTexts_spec scanNumber .new
      [.registerChar "name".toList "mesh".toList, .registerGetChar "name".toList "xxxxxx".toList]
    have hallowed : TextCall.Allowed .new [.registerChar "name".toList "mesh".toList]
        (.registerGetChar "name".toList "xxxxxx".toList) := ⟨"mesh", htext, by decide⟩
    simp only [forall_split_cons] at hsome
    obtain ⟨⟨answers, s'⟩, hrun⟩ := Option.isSome_iff_exists.mp
      (hsome.mpr ⟨trivial, hallowed, fun before _ after hnil => by cases before <;> cases hnil⟩)
    refine ⟨answers, s', hrun, ?_⟩
    have hanswer := hanswers answers s' hrun [.registerChar "name".toList "mesh".toList] _ [] rfl
    rw [List.length_singleton, TextCall.answer, htext] at hanswer
    exact hanswer
  · obtain ⟨hsome, -⟩ := runTexts_spec scanNumber .new
      [.registerChar "name".toList "mesh".toList, .registerGetChar "name".toList "xx".toList]
    refine Option.not_isSome_iff_eq_none.mp fun hrun => ?_
    obtain ⟨text, htext', hfits⟩ :=
      hsome.mp hrun [.registerChar "name".toList "mesh".toList] _ [] rfl
    rw [htext] at htext'
    obtain rfl := Option.some.inj htext'
    exact absurd hfits (by decide)

end Calls

end Grvy.Lookup
