import Grvy.GetPot.Documents
import Grvy.Lookup.Vectors

/-!
From the text of an input file to the values that are read.

The object that GetPot makes of a file gives the answers that the input class knows GetPot
by. So a variable that is read has the last value that the lines of the file assign to it.
-/

namespace Grvy.Lookup

open Grvy.Lib Grvy.GetPot

/-! ### The answers of an object -/

/-- `__convert_to_type` of a bool, where `scanUnsigned` is what `>>` finds in a text for an
`unsigned`. -/
def convertToBool (scanUnsigned : String → Option ℕ) (text : String) : Option Bool :=
  let newstr := text.toList.map Char.toUpper
  if "TRUE".toList <:+: newstr then some true
  else if "FALSE".toList <:+: newstr then some false
  else (scanUnsigned text).map fun retval => retval ≠ 0

section Answers

variable (scan : String → Option ℚ) (scanUnsigned : String → Option ℕ) (o : Object)

/-- `__find_variable`, for a name that is a `char *`. -/
def fileVariable (var : String) : Option Variable := findVariable [] var.toList o.scope.vars

/-- What an object answers. -/
def ofObject : GetPot where
  value k var := (fileVariable o var).bind fun v =>
    convertToType scan k (cString (String.ofList v.original))
  cStr_value k var x h := by
    cases k with
    | string =>
        obtain ⟨v, -, hv⟩ := Option.bind_eq_some_iff.mp h
        rw [← Option.some.inj hv]
        exact cString_eq_of_null (null_notMem_cString _)
    | _ => rfl
  bool var := (fileVariable o var).bind fun v =>
    convertToBool scanUnsigned (String.ofList v.original)
  size := o.argv.length

/-- `operator()` with an index, of an object. -/
def objectElement (k : Kind) (var : String) (varDef : k.type) (idx : ℕ) : k.type :=
  match fileVariable o var with
  | none => k.cStr varDef
  | some v =>
      match v.value[idx]? with
      | none => k.cStr varDef
      | some element =>
          (convertToType scan k (cString (String.ofList element))).getD (k.cStr varDef)

end Answers

/-! ### Elements -/

section Elements

variable {scan : String → Option ℚ} {scanUnsigned : String → Option ℕ} {o : Object}
  {d : Doubles} {fuel : ℕ} {name : CText} {args : List CText}

theorem nul_notMem_cStr (s : CText) : nul ∉ cStr s := fun h => by
  simpa using List.mem_takeWhile_imp h

/-- What is assigned is part of a C string. -/
theorem nul_notMem_lastValue {varName value : CText} (h : lastValue varName args = some value) :
    nul ∉ value := by
  obtain ⟨a, ha, rfl⟩ := Option.map_eq_some_iff.mp h
  obtain ⟨arg, -, harg⟩ :=
    List.mem_filterMap.mp (List.mem_reverse.mp (List.mem_of_find?_eq_some ha))
  obtain ⟨-, hsome⟩ := Option.ite_none_right_eq_some.mp harg
  obtain rfl := Option.some.inj hsome
  intro hmem
  exact nul_notMem_cStr arg ((List.dropWhile_suffix _).subset (List.mem_of_mem_tail hmem))

theorem cString_ofList {s : CText} (h : nul ∉ s) : cString (String.ofList s) = String.ofList s :=
  cString_eq_of_null (by simpa [nul] using h)

theorem fields_ofList (s : CText) : fields (String.ofList s) = (strtok s).map String.ofList := by
  have hsplit : (fun piece : CText => !piece.isEmpty) = fun piece => decide (piece ≠ []) := by
    funext piece
    cases piece <;> rfl
  have hblank : isFieldSeparator = isBlank := rfl
  rw [fields, strtok, String.toList_ofList, hsplit, hblank]

/-- An element of a variable is an element of the text that the object answers with. -/
theorem getElement_ofObject (h : construct d fuel name args = some o) (k : Kind) (var : String)
    (varDef : k.type) (idx : ℕ) :
    (ofObject scan scanUnsigned o).getElement scan k var varDef idx =
      objectElement scan o k var varDef idx := by
  have hfind : fileVariable o var = _ := (variables_construct h).2 var.toList
  rw [GetPot.getElement, GetPot.elements, objectElement, ofObject]
  simp only [hfind]
  cases hlast : lastValue var.toList o.argv.tail with
  | none => simp
  | some value =>
      have hnul := nul_notMem_lastValue hlast
      have htext : convertToType scan .string (cString (String.ofList value)) =
          some (String.ofList value) := by
        rw [cString_ofList hnul]
        rfl
      simp only [Option.map_some, Variable.take, Option.bind_some, htext, fields_ofList,
        List.map_map, List.getElem?_map]
      cases hidx : (strtok value)[idx]? with
      | none => simp
      | some element =>
          have helement : nul ∉ element := fun hmem => by
            have hpart := (List.mem_filter.mp (List.mem_of_getElem? hidx)).1
            exact hnul (mem_of_mem_splitOnP _ _ _ hpart _ hmem).1
          simp [cString_ofList helement]

end Elements

/-- `sscanf` for a number without a fraction. -/
def scanNumber (text : String) : Option ℚ := (scanWhole text.toList).map fun n => n

/-- `>>` for a number without a sign. -/
def scanSize (text : String) : Option ℕ := (scanWhole text.toList).map Int.toNat

/-- The second element of `x=a b`. -/
theorem second_element :
    ∃ o, construct wholeDoubles 1 "f".toList ["x=a b".toList] = some o ∧
      (ofObject scanNumber scanSize o).getElement scanNumber .string "x" "" 1 = "b" := by
  have h : construct wholeDoubles 1 "f".toList ["x=a b".toList] = some _ := rfl
  exact ⟨_, h, (getElement_ofObject h .string "x" "" 1).trans rfl⟩

/-! ### Reading from a file -/

section Loading

variable (d : Doubles) (scan : String → Option ℚ) (scanUnsigned : String → Option ℕ)

/-- `Load` of a buffer with this text. -/
def loadText (fuel : ℕ) (text : CText) (s : Input) : Option (ℕ × Input) :=
  if s.initialized then some (0, s)
  else
    (construct d fuel "<stringstream-initializer>".toList (readInStream text)).map fun o =>
      s.load (ofObject scan scanUnsigned o)

variable {s : Input}

theorem load_closed (hclosed : s.initialized = false) {buffer : GetPot} (hsize : 1 < buffer.size) :
    ∃ s', s.load buffer = (1, s') ∧ s'.opened = some buffer ∧ s'.defaults = s.defaults := by
  rw [Input.load, hclosed, if_neg Bool.false_ne_true, Input.attach, if_neg (by omega)]
  exact ⟨_, rfl, rfl, rfl⟩

theorem nul_notMem_lastOf {lines : List Line} (h : ∀ line ∈ lines, line.Ok) {name text : CText}
    (htext : lastOf name (meaning lines) = some text) : nul ∉ text := by
  obtain ⟨a, ha, rfl⟩ := Option.map_eq_some_iff.mp htext
  obtain ⟨line, hline, hassigned⟩ :=
    List.mem_filterMap.mp (List.mem_reverse.mp (List.mem_of_find?_eq_some ha))
  have hclean := clean_storedLines h (fun _ hs => absurd hs List.not_mem_nil) line hline
  cases line with
  | assignment n v =>
      obtain rfl := Option.some.inj hassigned
      exact fun hmem => hclean.2 (by simp [hmem])
  | _ => cases hassigned

/-- What the lines of a file assign to a variable last, as a value of a type. -/
def assigned (lines : List Line) (k : Kind) (var : String) : Option k.type :=
  (lastOf (cStr var.toList) (meaning lines)).bind fun text =>
    convertToType scan k (String.ofList text)

def assignedBool (lines : List Line) (var : String) : Option Bool :=
  (lastOf (cStr var.toList) (meaning lines)).bind fun text =>
    convertToBool scanUnsigned (String.ofList text)

/-- The answers for a file are what its lines assign. -/
theorem answers_fileText {lines : List Line} (h : ∀ line ∈ lines, line.Ok) (name : CText) :
    ∃ o, Settles (fun n => construct d n name (readInStream (fileText lines))) o ∧
      (ofObject scan scanUnsigned o).size = (lines.flatMap Line.arguments).length + 1 ∧
      (∀ k var, (ofObject scan scanUnsigned o).value k var = assigned scan lines k var) ∧
      ∀ var, (ofObject scan scanUnsigned o).bool var = assignedBool scanUnsigned lines var := by
  obtain ⟨o, hsettles, hargv, hfind⟩ := construct_fileText d h name
  refine ⟨o, hsettles, ?_, fun k var => ?_, fun var => ?_⟩
  · show o.argv.length = _
    rw [hargv, List.length_cons, length_storedLines]
  · have hvar : fileVariable o var = _ := hfind var.toList
    show (fileVariable o var).bind _ = _
    rw [hvar, Option.bind_map, assigned]
    refine Option.bind_congr fun text htext => ?_
    show convertToType scan k (cString (String.ofList text)) = _
    rw [cString_ofList (nul_notMem_lastOf h htext)]
  · have hvar : fileVariable o var = _ := hfind var.toList
    show (fileVariable o var).bind _ = _
    rw [hvar, Option.bind_map]
    rfl

/-- **Loading.** A file with arguments can be loaded into an input that has no file. A variable
then has the last value that the lines of the file assign to it, and what is registered for
it if there is none. -/
theorem readVar_fileText {lines : List Line} (h : ∀ line ∈ lines, line.Ok)
    (hne : lines.flatMap Line.arguments ≠ []) (hclosed : s.initialized = false) :
    ∃ s', Settles (fun n => loadText d scan scanUnsigned n (fileText lines) s) (1, s') ∧
      ∀ k var varDef, k.cStr varDef = varDef →
        (∀ v, assigned scan lines k var = some v → v ≠ varDef →
          (s'.readVar k var varDef).1 = 1 ∧ (s'.readVar k var varDef).2.1 = some v) ∧
        (assigned scan lines k var = none → (s'.readVar k var varDef).2.1 =
          ((s.registerDefault k var varDef).getVar k var).or (some varDef)) := by
  obtain ⟨o, hsettles, hargv, hvalue, -⟩ :=
    answers_fileText d scan scanUnsigned h "<stringstream-initializer>".toList
  have hsize : 1 < (ofObject scan scanUnsigned o).size := by
    have hpos := List.length_pos_iff.mpr hne
    omega
  obtain ⟨s', hload, hopened, hdefaults⟩ := load_closed hclosed hsize
  refine ⟨s', ?_, fun k var varDef hdef => ?_⟩
  · have hmap := hsettles.map fun o => s.load (ofObject scan scanUnsigned o)
    rw [hload] at hmap
    simp only [loadText, hclosed]
    exact hmap
  · have hget : (ofObject scan scanUnsigned o).get k var varDef =
        (assigned scan lines k var).getD varDef := by
      rw [GetPot.get, hvalue, hdef]
    refine ⟨fun v hv hne => ?_, fun hnone => ?_⟩
    · rw [Input.readVar_opened hopened, hget, hv, Option.getD_some, if_neg hne]
      exact ⟨rfl, rfl⟩
    · rw [Input.readVar_opened hopened, hget, hnone, Option.getD_none, if_pos rfl]
      have hregister : (s'.registerDefault k var varDef).getVar k var =
          (s.registerDefault k var varDef).getVar k var := by
        rw [Input.registerDefault, Input.registerDefault]
        split
        · simp
        · rw [Input.getVar, Input.getVar, hdefaults]
      rw [hregister]

end Loading

/-- A value of a section, read by its full name. -/
theorem sectioned_loaded :
    ∃ s', Settles (fun n => loadText wholeDoubles scanNumber scanSize n (fileText sectioned)
        Input.new) (1, s') ∧
      (s'.readVar .string "solver/name" "").1 = 1 ∧
      (s'.readVar .string "solver/name" "").2.1 = some "two words" := by
  have hok : ∀ line ∈ sectioned, line.Ok := by decide
  have hclosed : Input.new.initialized = false := rfl
  obtain ⟨s', hsettles, hread⟩ :=
    readVar_fileText wholeDoubles scanNumber scanSize hok (by decide) hclosed
  exact ⟨s', hsettles, (hread .string "solver/name" "" rfl).1 "two words" (by rfl) (by decide)⟩

end Grvy.Lookup
