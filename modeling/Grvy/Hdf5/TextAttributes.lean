import Grvy.Hdf5.Attributes

/-!
Attributes that are strings, byte by byte.

`AttributeWrite` makes the type of the attribute as long as the string, without
room for a terminating zero; HDF5 refuses to make it of length 0, and the type
then keeps the length 1 it had. `AttributeRead` reads that many bytes into a
buffer of its own of that length, and assigns the buffer to a string, which
takes characters up to a zero, wherever that may be. So a string is read back
from the buffer alone only if it is empty; any other is either cut at a zero of
its own, or what follows the buffer in memory is read as well.
-/

namespace Grvy.Hdf5

open Std (TreeMap)
open Grvy.Lib

variable {T D : Type}

/-! ### Strings and types -/

/-- `H5Tset_size` on a string type, whose length stays as it is if 0 is asked for. -/
def h5tsetSize (size strtype : ℕ) : ℕ := if size = 0 then strtype else size

/-- The length of the type `H5Tcopy(H5T_C_S1)`. -/
def h5tCS1 : ℕ := 1

/-- What `std::string` takes from a pointer, and how many of the characters it looks at are
behind the buffer. -/
structure Assigned where
  text : List UInt8
  outside : ℕ
  deriving DecidableEq

/-- The assignment of a buffer to a string; `following` is the memory behind the buffer. It
does not end well if there is no zero in either. -/
def assignCString (buffer following : List UInt8) : Option Assigned :=
  let memory := buffer ++ following
  if 0 ∈ memory then
    let text := memory.takeWhile fun c => c ≠ 0
    some { text := text, outside := text.length + 1 - buffer.length }
  else none

/-- The bytes as the characters of a text. -/
def asText (bytes : List UInt8) : String :=
  String.ofList (bytes.map fun b => Char.ofNat b.toNat)

/-! ### The calls -/

/-- An object with the bytes of the attributes that are strings, by file, group and name.
Their number is the length of the type. -/
structure TextClass (T D : Type) extends Hdf5Class T D where
  bytes : String → Path → String → List UInt8

/-- The location of `groupIds[groupname]`. -/
def Hdf5Class.groupLocation (groupname : String) (s : Hdf5Class T D) : Option (File × Path) :=
  let (loc, s) := s.groupId groupname
  s.location loc

namespace TextClass

variable (alloc : Allocator Object)

def setBytes (filename : String) (path : Path) (name : String) (data : List UInt8)
    (s : TextClass T D) : TextClass T D :=
  { s with
    bytes := Function.update s.bytes filename (Function.update (s.bytes filename) path
      (Function.update (s.bytes filename path) name data)) }

/-- `AttributeWrite` of a string. `H5Awrite` copies as many bytes as the type is long from
`c_str()`, where a zero follows the string. -/
def attributeWrite (groupname attrname : String) (value : List UInt8) (s : TextClass T D) :
    Option (ℕ × TextClass T D) :=
  let strtype := h5tsetSize value.length h5tCS1
  match s.groupLocation groupname,
    s.attributeWriteText alloc groupname attrname (asText value) with
  | some (f, path), some (ret, s') =>
      some (ret, { s with toHdf5Class := s' }.setBytes f.name path (cString attrname)
        ((value ++ [0]).take strtype))
  | _, _ => none

/-- `AttributeRead` of a string, when the memory behind its buffer is `following`. -/
def attributeRead (following : List UInt8) (groupname attrname : String) (s : TextClass T D) :
    Option ((ℤ × Option Assigned) × TextClass T D) := do
  let ((status, found), s') ← s.attributeReadText alloc groupname attrname
  match found, s'.groupLocation groupname with
  | some (), some (f, path) =>
      let stored := s.bytes f.name path (cString attrname)
      let memtype := h5tsetSize stored.length h5tCS1
      let tempString := stored.take memtype
      let value ← assignCString tempString following
      some ((status, some value), { s with toHdf5Class := s' })
  | _, _ => some ((status, none), { s with toHdf5Class := s' })

end TextClass

/-! ### What is read back -/

section ReadBack

variable {alloc : Allocator Object} {f : File} {s : TextClass T D} {groupname attrname : String}

/-- The bytes a new attribute holds. -/
def storedBytes (value : List UInt8) : List UInt8 :=
  (value ++ [0]).take (h5tsetSize value.length h5tCS1)

@[simp] theorem storedBytes_nil : storedBytes [] = [0] := rfl

theorem storedBytes_of_ne_nil {value : List UInt8} (h : value ≠ []) :
    storedBytes value = value := by
  rw [storedBytes, h5tsetSize, if_neg (mt List.length_eq_zero_iff.mp h), List.take_left']
  rfl

@[simp] theorem take_storedBytes (value : List UInt8) :
    (storedBytes value).take (h5tsetSize (storedBytes value).length h5tCS1) =
      storedBytes value := by
  rcases eq_or_ne value [] with rfl | h
  · rfl
  · rw [storedBytes_of_ne_nil h, h5tsetSize, if_neg (mt List.length_eq_zero_iff.mp h),
      List.take_length]

@[simp]
theorem bytes_setBytes (filename : String) (path : Path) (name : String) (data : List UInt8) :
    (s.setBytes filename path name data).bytes filename path name = data := by
  simp [TextClass.setBytes]

theorem groupLocation_of_ready {s : Hdf5Class T D} (ready : Ready f s)
    (hg : s.groupIds.contains groupname = true) :
    s.groupLocation groupname = some (f, components (cString groupname)) := by
  obtain ⟨id, hid⟩ := exists_of_contains hg
  rw [Hdf5Class.groupLocation, Hdf5Class.groupId_of_cached hid]
  exact Library.location_group (ready.groups groupname id hid)

/-- A read finds a text, if a text is there. -/
theorem attributeReadText_of_text {s : Hdf5Class T D} (alloc : Allocator Object)
    (ready : Ready f s) (hg : s.groupIds.contains groupname = true) {text : String}
    (htext : (s.contents f).attributes (components (cString groupname)) (cString attrname) =
      some (.text text)) :
    ∃ s', s.attributeReadText alloc groupname attrname = some ((0, some ()), s') ∧
      Silent f (s.contents f) s s' := by
  obtain ⟨s', hread, silent⟩ :=
    ready.attributeReadWith alloc _ (ready.exist groupname hg) attrname
  rw [htext] at hread
  exact ⟨s', hread, silent⟩

/-- A new attribute is written, and read from the bytes it holds. -/
theorem attributeRead_written (alloc : Allocator Object) (ready : Ready f s.toHdf5Class)
    (hg : s.groupIds.contains groupname = true) (hwrite : f.readonly = false)
    (hnew : (s.contents f).attributes (components (cString groupname)) (cString attrname) = none)
    (value following : List UInt8) :
    ∃ s₁, s.attributeWrite alloc groupname attrname value = some (0, s₁) ∧
      ∃ s₂, s₁.attributeRead alloc following groupname attrname =
        (assignCString (storedBytes value) following).map fun assigned =>
          ((0, some assigned), s₂) := by
  obtain ⟨s', htext, silent⟩ :=
    ready.attributeWriteText alloc hg hwrite hnew (asText value)
  have hg' := silent.groups groupname hg
  have hstored : (s'.contents f).attributes (components (cString groupname)) (cString attrname) =
      some (.text (cString (asText value))) := by
    rw [silent.contents, Contents.attributes_setAttribute, if_pos ⟨rfl, rfl⟩]
  obtain ⟨s'', hread, silent'⟩ := attributeReadText_of_text alloc silent.ready hg' hstored
  let s₁ := { s with toHdf5Class := s' }.setBytes f.name (components (cString groupname))
    (cString attrname) (storedBytes value)
  refine ⟨s₁, ?_, { s₁ with toHdf5Class := s'' }, ?_⟩
  · simp only [TextClass.attributeWrite, groupLocation_of_ready ready hg, htext]
    rfl
  · have hbytes : s₁.bytes f.name (components (cString groupname)) (cString attrname) =
        storedBytes value := bytes_setBytes _ _ _ _
    have htexts : s₁.attributeReadText alloc groupname attrname = some ((0, some ()), s'') := hread
    have hlocation := groupLocation_of_ready silent'.ready (silent'.groups groupname hg')
    simp only [TextClass.attributeRead, htexts, hlocation, hbytes, take_storedBytes,
      Option.bind_eq_bind, Option.bind_some]
    cases assignCString (storedBytes value) following <;> rfl

/-- An assignment that looks at nothing behind the buffer takes less than the buffer. -/
theorem length_lt_of_assignCString {buffer following : List UInt8} {assigned : Assigned}
    (h : assignCString buffer following = some assigned) (hinside : assigned.outside = 0) :
    assigned.text.length < buffer.length := by
  simp only [assignCString] at h
  split at h
  · obtain rfl := Option.some.inj h
    change _ + 1 - buffer.length = 0 at hinside
    change List.length (List.takeWhile _ _) < _
    omega
  · cases h

/-- With no zero of its own a string is read back if the buffer happens to be followed by
one, which is read as well. -/
theorem assignCString_followed {value following : List UInt8} (hzero : 0 ∉ value) :
    assignCString value (0 :: following) = some { text := value, outside := 1 } := by
  have hall : ∀ c ∈ value, decide (c ≠ 0) = true := fun c hc =>
    decide_eq_true fun heq => hzero (heq ▸ hc)
  have htake : (value ++ 0 :: following).takeWhile (fun c => decide (c ≠ 0)) = value := by
    rw [List.takeWhile_append_of_pos hall, List.takeWhile_cons]
    simp
  have hmem : 0 ∈ value ++ 0 :: following := by simp
  simp only [assignCString, if_pos hmem, htake, Nat.add_sub_cancel_left]

/-- A new attribute that is a string is read back, by a read that keeps to its buffer. -/
def TextRoundTrips (alloc : Allocator Object) (groupname attrname : String)
    (value following : List UInt8) (s : TextClass T D) : Prop :=
  ∃ s₁ s₂, s.attributeWrite alloc groupname attrname value = some (0, s₁) ∧
    s₁.attributeRead alloc following groupname attrname =
      some ((0, some { text := value, outside := 0 }), s₂)

theorem textRoundTrips_iff_of_ready (ready : Ready f s.toHdf5Class)
    (hg : s.groupIds.contains groupname = true) (hwrite : f.readonly = false)
    (hnew : (s.contents f).attributes (components (cString groupname)) (cString attrname) = none)
    (value following : List UInt8) :
    TextRoundTrips alloc groupname attrname value following s ↔ value = [] := by
  obtain ⟨s₁, hwritten, s₂, hread⟩ :=
    attributeRead_written alloc ready hg hwrite hnew value following
  constructor
  · rintro ⟨s₁', s₂', hwritten', hread'⟩
    rw [hwritten] at hwritten'
    cases hwritten'
    rw [hread, Option.map_eq_some_iff] at hread'
    obtain ⟨assigned, hassign, heq⟩ := hread'
    cases heq
    by_contra hne
    have hlt := length_lt_of_assignCString hassign rfl
    rw [storedBytes_of_ne_nil hne] at hlt
    exact Nat.lt_irrefl _ hlt
  · rintro rfl
    refine ⟨s₁, s₂, hwritten, ?_⟩
    have hassign : assignCString (storedBytes []) following =
        some { text := [], outside := 0 } := by
      simp [assignCString]
    rw [hread, hassign]
    rfl

end ReadBack

/-- With a group of a file open that can be written, a new attribute that is a string is read
back, within the buffer, if and only if the string is empty. -/
theorem text_round_trips_iff [Zero T] {alloc : Allocator Object} {f : File} {s : TextClass T D}
    {groupname attrname : String} (hused : Used alloc (some f) s.toHdf5Class)
    (hg : s.groupIds.contains groupname = true) (hwrite : f.readonly = false)
    (hnew : (s.contents f).attributes (components (cString groupname)) (cString attrname) = none)
    (value following : List UInt8) :
    TextRoundTrips alloc groupname attrname value following s ↔ value = [] :=
  textRoundTrips_iff_of_ready hused.between hg hwrite hnew value following

/-- A new file with one group. -/
def oneGroup : Option (TextClass ℤ Unit) :=
  (newFile "perf.h5" ["timings"]).map fun s => { toHdf5Class := s, bytes := fun _ _ _ => [] }

theorem oneGroup_ready : ∃ s, newFile "perf.h5" ["timings"] = some s ∧
    s.groupIds.contains "timings" = true ∧
    (s.contents { name := "perf.h5", readonly := false }).attributes
      (components (cString "timings")) (cString "code_revision") = none := by
  have hrun : (newFile "perf.h5" ["timings"]).any (fun s => s.groupIds.contains "timings" &&
      decide ((s.contents { name := "perf.h5", readonly := false }).attributes
        (components (cString "timings")) (cString "code_revision") = none)) = true := by
    decide +kernel
  obtain ⟨s, hs, htest⟩ := exists_some_of_any hrun
  rw [Bool.and_eq_true, decide_eq_true_iff] at htest
  exact ⟨s, hs, htest⟩

/-- The empty string is read back. -/
theorem empty_text_round_trips : ∃ s, oneGroup = some s ∧
    TextRoundTrips (.next Object) "timings" "code_revision" [] [] s := by
  obtain ⟨s, hs, hg, hnew⟩ := oneGroup_ready
  refine ⟨{ toHdf5Class := s, bytes := fun _ _ _ => [] }, by rw [oneGroup, hs]; rfl, ?_⟩
  exact (text_round_trips_iff (newFile_used hs) hg rfl hnew [] []).mpr rfl

/-- A string of one character is read beyond the buffer, even if a zero follows. -/
theorem one_character_not_round_trips : ∃ s, oneGroup = some s ∧
    ¬TextRoundTrips (.next Object) "timings" "code_revision" [65] [0] s := by
  obtain ⟨s, hs, hg, hnew⟩ := oneGroup_ready
  let st : TextClass ℤ Unit := { toHdf5Class := s, bytes := fun _ _ _ => [] }
  have hready : Ready { name := "perf.h5", readonly := false } st.toHdf5Class :=
    (newFile_used hs).between
  refine ⟨st, by rw [oneGroup, hs]; rfl, fun htrips => ?_⟩
  exact List.cons_ne_nil _ _
    ((textRoundTrips_iff_of_ready hready hg rfl hnew [65] [0]).mp htrips)

end Grvy.Hdf5
