import Mathlib.Data.List.Infix
import Mathlib.Data.List.Nodup
import Mathlib.Data.List.TakeWhile

/-!
Names as a C library sees them: text up to its first null character, and paths,
whose components are separated by slashes.

An empty component and the component `.` stand for no step, so that many names
denote one path.
-/

namespace Grvy.Lib

/-- `c_str()`, as a function that reads to the null character sees it. -/
def cString (s : String) : String :=
  String.ofList (s.toList.takeWhile fun c => c ≠ Char.ofNat 0)

/-- The components of a path from the root. -/
abbrev Path := List String

/-- A component that stands for a step. -/
def isStep (c : String) : Bool := c ≠ "" && c ≠ "."

def components (name : String) : Path :=
  ((name.toList.splitOnP (· = '/')).map String.ofList).filter isStep

/-- The path a name denotes at a location. A name that begins with a slash is taken
from the root. -/
def resolve (loc : Path) (name : String) : Path :=
  if name.toList.head? = some '/' then components name else loc ++ components name

@[simp] theorem resolve_nil (name : String) : resolve [] name = components name := by
  rw [resolve, List.nil_append, ite_self]

/-- A name after a slash continues the path before it. -/
@[simp] theorem components_append (base name : String) :
    components (base ++ "/" ++ name) = components base ++ components name := by
  have hslash : (base ++ "/" ++ name).toList = base.toList ++ '/' :: name.toList := by
    simp
  rw [components, hslash, List.splitOnP_append_cons _ _ (by simp), List.map_append,
    List.filter_append]
  rfl

/-! ### Names of one component -/

/-- A name that stands for one step, and can be part of a longer name. -/
structure IsName (c : String) : Prop where
  step : isStep c = true
  slash : '/' ∉ c.toList
  null : Char.ofNat 0 ∉ c.toList

theorem IsName.components_eq {c : String} (hc : IsName c) : components c = [c] := by
  have hsplit : c.toList.splitOnP (· = '/') = [c.toList] :=
    List.splitOnP_eq_singleton fun x hx => decide_eq_false fun heq => hc.slash (heq ▸ hx)
  rw [components, hsplit]
  simp [hc.step]

theorem cString_eq_of_null {s : String} (hs : Char.ofNat 0 ∉ s.toList) : cString s = s := by
  rw [cString, List.takeWhile_eq_self_iff.mpr, String.ofList_toList]
  intro x hx
  exact decide_eq_true fun heq => hs (heq ▸ hx)

theorem IsName.cString_eq {c : String} (hc : IsName c) : cString c = c := cString_eq_of_null hc.null

/-- A string with no null character in front is not cut. -/
theorem cString_append {s : String} (hs : Char.ofNat 0 ∉ s.toList) (t : String) :
    cString (s ++ t) = s ++ cString t := by
  have hall : ∀ x ∈ s.toList, decide (x ≠ Char.ofNat 0) = true := fun x hx =>
    decide_eq_true fun heq => hs (heq ▸ hx)
  rw [cString, String.toList_append, List.takeWhile_append_of_pos hall, String.ofList_append,
    String.ofList_toList]
  rfl

theorem mem_of_mem_cString {x : Char} {s : String} (hx : x ∈ (cString s).toList) :
    x ∈ s.toList := by
  rw [cString, String.toList_ofList] at hx
  exact (List.takeWhile_sublist _).subset hx

theorem null_notMem_cString (s : String) : Char.ofNat 0 ∉ (cString s).toList := by
  intro hmem
  rw [cString, String.toList_ofList] at hmem
  have hne := List.mem_takeWhile_imp hmem
  exact of_decide_eq_true hne rfl

/-- No part of a list that is split has a separator in it, nor anything new. -/
theorem mem_of_mem_splitOnP {α : Type} (p : α → Bool) (l : List α) :
    ∀ part ∈ l.splitOnP p, ∀ x ∈ part, x ∈ l ∧ p x = false := by
  induction l with
  | nil => simp
  | cons a l ih =>
      intro part hpart x hx
      rw [List.splitOnP_cons_eq_if_modifyHead] at hpart
      by_cases ha : p a = true
      · rw [if_pos ha] at hpart
        rcases List.mem_cons.mp hpart with rfl | hpart
        · cases hx
        · exact ⟨List.mem_cons_of_mem a (ih part hpart x hx).1, (ih part hpart x hx).2⟩
      · rw [if_neg ha] at hpart
        obtain ⟨first, rest, hsplit⟩ := List.exists_cons_of_ne_nil (List.splitOnP_ne_nil p l)
        rw [hsplit] at hpart ih
        rw [List.modifyHead_cons] at hpart
        rcases List.mem_cons.mp hpart with rfl | hpart
        · rcases List.mem_cons.mp hx with rfl | hx
          · exact ⟨List.mem_cons_self, (Bool.not_eq_true _).mp ha⟩
          · have hfirst := ih first List.mem_cons_self x hx
            exact ⟨List.mem_cons_of_mem a hfirst.1, hfirst.2⟩
        · have hrest := ih part (List.mem_cons_of_mem first hpart) x hx
          exact ⟨List.mem_cons_of_mem a hrest.1, hrest.2⟩

/-- The components of a name that is cut at its null character are names. -/
theorem isName_of_mem_components {c name : String} (hc : c ∈ components (cString name)) :
    IsName c := by
  obtain ⟨hmem, hstep⟩ := List.mem_filter.mp hc
  obtain ⟨part, hpart, rfl⟩ := List.mem_map.mp hmem
  have hchars := mem_of_mem_splitOnP _ _ part hpart
  refine ⟨hstep, fun hslash => ?_, fun hnull => ?_⟩
  · rw [String.toList_ofList] at hslash
    exact of_decide_eq_false (hchars _ hslash).2 rfl
  · rw [String.toList_ofList] at hnull
    exact null_notMem_cString name (hchars _ hnull).1

/-- No path occurs twice on the way to a path. -/
theorem nodup_inits (path : Path) : path.inits.Nodup := by
  induction path with
  | nil => exact List.nodup_singleton _
  | cons c path ih =>
      rw [List.inits_cons, List.nodup_cons]
      refine ⟨?_, ih.map (List.cons_injective)⟩
      simp

end Grvy.Lib
