import Grvy.Hdf5.OpenFile
import Grvy.Lib.Outcome

/-!
Attributes of an open file: what `AttributeRead` returns after a sequence of
`AttributeWrite` calls.

Each call of `AttributeWrite` closes the handle it has used. The one it keeps for
an attribute that exists is under the name alone, so that no later write to an
attribute of that name reaches the file. A value is read back after every call if
and only if each write creates its attribute, or is the first to find one of its
name, or writes what is there already.
-/

namespace Grvy.Hdf5

open Std (TreeMap)
open Grvy.Lib

variable {T D : Type} {alloc : Allocator Object}

/-! ### Calls -/

/-- A call on the attributes of a group. -/
inductive Call (T : Type)
  | write (groupname attrname : String) (value : T)
  | read (groupname attrname : String)

def Call.groupname : Call T → String
  | .write groupname _ _ => groupname
  | .read groupname _ => groupname

/-- The object after a call that returns. -/
def Call.perform [Zero T] (alloc : Allocator Object) (c : Call T) (s : Hdf5Class T D) :
    Option (Hdf5Class T D) :=
  match c with
  | .write groupname attrname value =>
      (s.attributeWrite alloc groupname attrname value).map Prod.snd
  | .read groupname attrname => (s.attributeRead alloc groupname attrname).map Prod.snd

/-- An object between calls, with the file it has open: files are opened or created
and closed again, groups of them are opened or created, and then attributes are
written and read. -/
inductive Used [Zero T] (alloc : Allocator Object) : Option File → Hdf5Class T D → Prop
  | new (lib : Library T D) : Used alloc none (.new lib)
  | openFile {s s' : Hdf5Class T D} {filename : String} {readonly permitted : Bool} {ret : ℕ} :
      Used alloc none s → s.openFile alloc filename readonly permitted = some (ret, s') →
      Used alloc (some { name := filename, readonly := readonly }) s'
  | create {s s' : Hdf5Class T D} {filename : String} {overwrite permitted : Bool} {ret : ℕ} :
      Used alloc none s → s.create alloc filename overwrite permitted = some (ret, s') →
      Used alloc (some { name := filename, readonly := false }) s'
  | groupOpen {f : File} {s s' : Hdf5Class T D} {groupname : String} {ret : ℕ} :
      Used alloc (some f) s → s.groupOpen alloc groupname = some (ret, s') →
      Used alloc (some f) s'
  | groupCreate {f : File} {s s' : Hdf5Class T D} {groupname : String} {ret : ℕ} :
      Used alloc (some f) s → s.groupCreate alloc groupname = some (ret, s') →
      Used alloc (some f) s'
  | call {f : File} {s s' : Hdf5Class T D} {c : Call T} :
      Used alloc (some f) s → s.groupIds.contains c.groupname = true →
      c.perform alloc s = some s' → Used alloc (some f) s'
  | close {f : File} {s : Hdf5Class T D} : Used alloc (some f) s → Used alloc none s.close.2

/-! ### Last write wins -/

/-- The value most recently written to each attribute of each group. -/
abbrev LastWritten (T : Type) := Path → String → Option T

def Call.remember (c : Call T) (w : LastWritten T) : LastWritten T :=
  match c with
  | .write groupname attrname value =>
      let path := components (cString groupname)
      Function.update w path (Function.update (w path) (cString attrname) (some value))
  | .read _ _ => w

/-- Every attribute written before is read with its most recent value. -/
def Answers (alloc : Allocator Object) (w : LastWritten T) (s : Hdf5Class T D) : Prop :=
  ∀ groupname, s.groupIds.contains groupname = true → ∀ attrname value,
    w (components (cString groupname)) (cString attrname) = some value →
    ∃ s', s.attributeRead alloc groupname attrname = some ((0, some value), s')

/-- It is so at every point of a sequence of calls. -/
def LastWriteWins [Zero T] (alloc : Allocator Object) :
    List (Call T) → LastWritten T → Hdf5Class T D → Prop
  | [], w, s => Answers alloc w s
  | c :: calls, w, s =>
      Answers alloc w s ∧
        ∀ s', c.perform alloc s = some s' → LastWriteWins alloc calls (c.remember w) s'

/-- The condition on a write, in the state it finds: there is no such attribute in
the group, or it has the value already, or it is a number, the file can be written
and no handle is kept under the name. -/
def Lands (f : File) (s : Hdf5Class T D) : Call T → Prop
  | .write groupname attrname value =>
      let stored :=
        (s.contents f).attributes (components (cString groupname)) (cString attrname)
      stored = none ∨ stored = some (.num value) ∨
        (f.readonly = false ∧ s.attributeIds.contains attrname = false ∧
          ∃ old, stored = some (.num old))
  | .read _ _ => True

/-- Every write of a sequence meets the condition. -/
def AllLand [Zero T] (alloc : Allocator Object) (f : File) : List (Call T) → Hdf5Class T D → Prop
  | [], _ => True
  | c :: calls, s =>
      Lands f s c ∧ ∀ s', c.perform alloc s = some s' → AllLand alloc f calls s'

instance decidableLands [DecidableEq T] (f : File) (s : Hdf5Class T D) (c : Call T) :
    Decidable (Lands f s c) :=
  match c with
  | .write groupname attrname value =>
      match h : (s.contents f).attributes (components (cString groupname)) (cString attrname) with
      | none => .isTrue (Or.inl h)
      | some (.num old) =>
          decidable_of_iff
            (old = value ∨ f.readonly = false ∧ s.attributeIds.contains attrname = false)
            (by simp [Lands, h])
      | some (.text _) => .isFalse (by simp [Lands, h])
  | .read _ _ => .isTrue trivial

instance decidableAllLand [Zero T] [DecidableEq T] (alloc : Allocator Object) (f : File)
    (calls : List (Call T)) (s : Hdf5Class T D) : Decidable (AllLand alloc f calls s) :=
  match calls with
  | [] => .isTrue trivial
  | c :: calls =>
      match h : c.perform alloc s with
      | none => decidable_of_iff (Lands f s c) (by simp [AllLand, h])
      | some s' =>
          have := decidableAllLand alloc f calls s'
          decidable_of_iff (Lands f s c ∧ AllLand alloc f calls s') (by simp [AllLand, h])

/-! ### One read -/

section Read

variable {s : Hdf5Class T D} {f : File} {groupname attrname : String}

/-- A read in an open group returns 0 and a number if the attribute holds it. -/
theorem attributeRead_iff (ready : Ready f s) (hg : s.groupIds.contains groupname = true)
    (value : T) :
    (∃ s', s.attributeRead alloc groupname attrname = some ((0, some value), s')) ↔
      (s.contents f).attributes (components (cString groupname)) (cString attrname) =
        some (.num value) := by
  obtain ⟨s', hread, -⟩ :=
    ready.attributeReadWith alloc Value.number (ready.exist groupname hg) attrname
  rw [Hdf5Class.attributeRead, hread]
  cases (s.contents f).attributes (components (cString groupname)) (cString attrname) with
  | none => simp [Hdf5Class.readResult]
  | some v =>
      cases v with
      | num x => simp [Hdf5Class.readResult, Value.number]
      | text _ => simp [Hdf5Class.readResult, Value.number]

/-- A read leaves the file as it is. -/
theorem attributeRead_after (alloc : Allocator Object) (ready : Ready f s)
    (hg : s.groupIds.contains groupname = true) (attrname : String) :
    ∃ ret s', s.attributeRead alloc groupname attrname = some (ret, s') ∧
      After f (s.contents f) s s' := by
  obtain ⟨s', hread, silent⟩ :=
    ready.attributeReadWith alloc _ (ready.exist groupname hg) attrname
  exact ⟨_, s', hread, silent.toAfter⟩

end Read

/-! ### Sequences of calls -/

section Sequences

variable {s : Hdf5Class T D} {f : File} {w : LastWritten T}

/-- The file holds what was written last. -/
def Holds (f : File) (w : LastWritten T) (s : Hdf5Class T D) : Prop :=
  ∀ path name value, w path name = some value →
    (s.contents f).attributes path name = some (.num value)

theorem Holds.answers (holds : Holds f w s) (ready : Ready f s) : Answers alloc w s :=
  fun _ hg _ value hw => (attributeRead_iff ready hg value).mpr (holds _ _ value hw)

theorem LastWriteWins.answers [Zero T] {calls : List (Call T)} (h : LastWriteWins alloc calls w s) :
    Answers alloc w s := by
  cases calls with
  | nil => exact h
  | cons c calls => exact h.1

theorem remember_write (groupname attrname : String) (value : T) (w : LastWritten T)
    (path : Path) (name : String) :
    (Call.write groupname attrname value).remember w path name =
      if path = components (cString groupname) ∧ name = cString attrname then some value
      else w path name := by
  rw [Call.remember]
  by_cases hpath : path = components (cString groupname)
  · subst hpath
    by_cases hname : name = cString attrname
    · simp [hname]
    · simp [hname]
  · simp [hpath]

/-- A write that reaches the file keeps what is held. -/
theorem Holds.write {s' : Hdf5Class T D} {groupname attrname : String} {value : T}
    (holds : Holds f w s)
    (hs' : s'.contents f = (s.contents f).setAttribute (components (cString groupname))
      (cString attrname) (.num value)) :
    Holds f ((Call.write groupname attrname value).remember w) s' := by
  intro path name x hx
  rw [remember_write] at hx
  rw [hs', Contents.attributes_setAttribute]
  split at hx
  · cases hx
    rw [if_pos ‹_›]
  · rw [if_neg ‹_›]
    exact holds path name x hx

/-- A write of what is there already keeps what is held. -/
theorem Holds.rewrite {s' : Hdf5Class T D} {groupname attrname : String} {value : T}
    (holds : Holds f w s) (hsame : s'.contents f = s.contents f)
    (hstored : (s.contents f).attributes (components (cString groupname)) (cString attrname) =
      some (.num value)) :
    Holds f ((Call.write groupname attrname value).remember w) s' := by
  intro path name x hx
  rw [remember_write] at hx
  rw [hsame]
  split at hx
  · rename_i heq
    cases hx
    rw [heq.1, heq.2, hstored]
  · exact holds path name x hx

/-- The most recent value is read back only if the write meets the condition. -/
theorem lands_of_answers {s' : Hdf5Class T D} {groupname attrname : String} {value : T}
    (after : After f (s.contents f) s s') (hg : s.groupIds.contains groupname = true)
    (h : Answers alloc ((Call.write groupname attrname value).remember w) s') :
    Lands f s (.write groupname attrname value) := by
  have hwritten : (Call.write groupname attrname value).remember w
      (components (cString groupname)) (cString attrname) = some value := by
    rw [remember_write, if_pos ⟨rfl, rfl⟩]
  have hg' := after.groups groupname hg
  have hread := (attributeRead_iff after.ready hg' value).mp
    (h groupname hg' attrname value hwritten)
  rw [after.contents] at hread
  exact Or.inr (Or.inl hread)

/-- What one write does: if it meets the condition, what is held stays so, and if
not, the value is not read back. -/
theorem attributeWrite_spec [Zero T] (alloc : Allocator Object) (ready : Ready f s)
    (holds : Holds f w s) {groupname : String} (hg : s.groupIds.contains groupname = true)
    (attrname : String) (value : T) :
    (s.attributeWrite alloc groupname attrname value = none ∧
      Lands f s (.write groupname attrname value)) ∨
    ∃ c s', s.attributeWrite alloc groupname attrname value = some (0, s') ∧
      After f c s s' ∧
      (Lands f s (.write groupname attrname value) →
        Holds f ((Call.write groupname attrname value).remember w) s') ∧
      (Answers alloc ((Call.write groupname attrname value).remember w) s' →
        Lands f s (.write groupname attrname value)) := by
  cases hstored :
      (s.contents f).attributes (components (cString groupname)) (cString attrname) with
  | none =>
      have hland : Lands f s (.write groupname attrname value) := Or.inl hstored
      cases hread : f.readonly with
      | true => exact Or.inl ⟨ready.attributeWrite_exits alloc hg hread hstored value, hland⟩
      | false =>
          obtain ⟨s', hwrite, silent⟩ :=
            ready.attributeWrite_creates alloc hg hread hstored value
          exact Or.inr ⟨_, s', hwrite, silent.toAfter, fun _ => holds.write silent.contents,
            fun _ => hland⟩
  | some stored =>
      right
      by_cases heffect : f.readonly = false ∧ s.attributeIds.contains attrname = false ∧
          ∃ old, stored = .num old
      · obtain ⟨hread, hnew, old, rfl⟩ := heffect
        obtain ⟨s', hwrite, after⟩ :=
          ready.attributeWrite_updates alloc hg hread hnew hstored value
        exact ⟨_, s', hwrite, after, fun _ => holds.write after.contents,
          fun _ => Or.inr (Or.inr ⟨hread, hnew, old, hstored⟩)⟩
      · have hlost : f.readonly = true ∨ s.attributeIds.contains attrname = true ∨
            ∃ text, stored = .text text := by
          cases hread : f.readonly with
          | true => exact Or.inl rfl
          | false =>
              cases hnew : s.attributeIds.contains attrname with
              | true => exact Or.inr (Or.inl rfl)
              | false =>
                  cases stored with
                  | num old => exact absurd ⟨hread, hnew, old, rfl⟩ heffect
                  | text text => exact Or.inr (Or.inr ⟨text, rfl⟩)
        obtain ⟨s', hwrite, after⟩ :=
          ready.attributeWrite_vanishes alloc hg hstored hlost value
        refine ⟨_, s', hwrite, after, fun hland => ?_, fun h => lands_of_answers after hg h⟩
        refine holds.rewrite after.contents ?_
        rcases hland with hnone | hvalue | ⟨hread, hnew, old, hold⟩
        · rw [hstored] at hnone
          cases hnone
        · exact hvalue
        · rw [hstored] at hold
          exact absurd ⟨hread, hnew, old, Option.some.inj hold⟩ heffect

/-- From a state in which the file holds what was written last, a sequence reads back
what it writes if and only if every write meets the condition. -/
theorem lastWriteWins_iff_of_holds [Zero T] (calls : List (Call T)) {s : Hdf5Class T D}
    {w : LastWritten T} (ready : Ready f s) (holds : Holds f w s)
    (hcalls : ∀ c ∈ calls, s.groupIds.contains c.groupname = true) :
    LastWriteWins alloc calls w s ↔ AllLand alloc f calls s := by
  induction calls generalizing s w with
  | nil => exact iff_of_true (holds.answers ready) trivial
  | cons c calls ih =>
      have hg := hcalls c List.mem_cons_self
      have hrest (c' : Call T) (hc' : c' ∈ calls) := hcalls c' (List.mem_cons_of_mem _ hc')
      rw [LastWriteWins, AllLand, and_iff_right (holds.answers ready)]
      have hrest' {c : Contents T D} {s' : Hdf5Class T D} (after : After f c s s') :
          ∀ c' ∈ calls, s'.groupIds.contains c'.groupname = true :=
        fun c' hc' => after.groups _ (hrest c' hc')
      cases c with
      | read groupname attrname =>
          change s.groupIds.contains groupname = true at hg
          obtain ⟨ret, s', hread, after⟩ := attributeRead_after alloc ready hg attrname
          have hperform : (Call.read groupname attrname : Call T).perform alloc s = some s' := by
            rw [Call.perform, hread]
            rfl
          have holds' : Holds f w s' := fun path name value hw => by
            rw [after.contents, holds path name value hw]
          have hiff := ih after.ready holds' (hrest' after)
          simp only [hperform, Option.some.injEq, forall_eq']
          exact hiff.trans ⟨fun h => ⟨trivial, h⟩, fun h => h.2⟩
      | write groupname attrname value =>
          change s.groupIds.contains groupname = true at hg
          rcases attributeWrite_spec alloc ready holds hg attrname value with
            ⟨hexit, hland⟩ | ⟨c, s', hwrite, after, hholds, hlands⟩
          · have hperform : (Call.write groupname attrname value).perform alloc s = none := by
              rw [Call.perform, hexit]
              rfl
            simp [hperform, hland]
          · have hperform : (Call.write groupname attrname value).perform alloc s = some s' := by
              rw [Call.perform, hwrite]
              rfl
            simp only [hperform, Option.some.injEq, forall_eq']
            constructor
            · intro hwins
              have hland := hlands hwins.answers
              exact ⟨hland, (ih after.ready (hholds hland) (hrest' after)).mp hwins⟩
            · rintro ⟨hland, hall⟩
              exact (ih after.ready (hholds hland) (hrest' after)).mpr hall

end Sequences

/-! ### Opening the groups -/

section Opening

variable {s : Hdf5Class T D} {f : File}

theorem Call.perform_ready [Zero T] {s' : Hdf5Class T D} {c : Call T} (ready : Ready f s)
    (hg : s.groupIds.contains c.groupname = true) (h : c.perform alloc s = some s') :
    Ready f s' := by
  cases c with
  | read groupname attrname =>
      change s.groupIds.contains groupname = true at hg
      obtain ⟨ret, s₁, hread, after⟩ := attributeRead_after alloc ready hg attrname
      rw [Call.perform, hread] at h
      cases h
      exact after.ready
  | write groupname attrname value =>
      change s.groupIds.contains groupname = true at hg
      have holds : Holds f (fun _ _ => none) s := fun _ _ _ hw => by cases hw
      rcases attributeWrite_spec alloc ready holds hg attrname value with
        ⟨hexit, -⟩ | ⟨_, s₁, hwrite, after, -⟩
      · rw [Call.perform, hexit] at h
        cases h
      · rw [Call.perform, hwrite] at h
        cases h
        exact after.ready

theorem Used.between [Zero T] {file : Option File} (h : Used alloc file s) :
    file.elim (Idle s) fun f => Ready f s := by
  induction h with
  | new lib =>
      refine ⟨rfl, fun attrname id hid => ?_⟩
      rw [Hdf5Class.new, TreeMap.getElem?_emptyc] at hid
      cases hid
  | openFile _ hopen idle =>
      obtain ⟨-, rfl⟩ := Hdf5Class.openFile_returns hopen
      exact Idle.openFile idle _ rfl
  | create _ hcreate idle =>
      obtain ⟨-, rfl⟩ := Hdf5Class.create_returns hcreate
      exact Idle.openFile idle _ rfl
  | groupOpen _ hopen ready => exact (Ready.groupOpen_returns ready hopen).ready
  | groupCreate _ hcreate ready =>
      obtain ⟨c, silent⟩ := Ready.groupCreate_returns ready hcreate
      exact silent.ready
  | call _ hg hcall ready => exact Call.perform_ready ready hg hcall
  | close _ ready => exact Ready.close ready

end Opening

/-- With the groups open, `AttributeRead` returns 0 and the most recent value of each
attribute after every call if and only if every `AttributeWrite` meets the
condition. -/
theorem last_write_wins_iff [Zero T] {f : File} {s : Hdf5Class T D}
    (hused : Used alloc (some f) s) (calls : List (Call T))
    (hcalls : ∀ c ∈ calls, s.groupIds.contains c.groupname = true) :
    LastWriteWins alloc calls (fun _ _ => none) s ↔ AllLand alloc f calls s :=
  lastWriteWins_iff_of_holds calls hused.between (fun _ _ _ h => by cases h) hcalls

/-! ### A new file -/

/-- A file that did not exist, with some groups. -/
def newFile (filename : String) (groupnames : List String) : Option (Hdf5Class ℤ Unit) := do
  let (_, s) ← (Hdf5Class.new { handles := .empty, disk := fun _ => none }).create
    (.next Object) filename false true
  groupnames.foldlM (fun s name => (s.groupCreate (.next Object) name).map Prod.snd) s

theorem newFile_used {filename : String} {groupnames : List String} {s : Hdf5Class ℤ Unit}
    (h : newFile filename groupnames = some s) :
    Used (.next Object) (some { name := filename, readonly := false }) s := by
  rw [newFile, Option.bind_eq_bind, Option.bind_eq_some_iff] at h
  obtain ⟨⟨ret, s₀⟩, hcreate, hgroups⟩ := h
  have hused := Used.create (Used.new _) hcreate
  clear hcreate
  induction groupnames generalizing s₀ with
  | nil =>
      cases hgroups
      exact hused
  | cons name groupnames ih =>
      simp only [List.foldlM_cons, Option.bind_eq_bind, Option.bind_eq_some_iff] at hgroups
      obtain ⟨s₁, hgroup, hrest⟩ := hgroups
      obtain ⟨⟨ret', s₂⟩, hcreate, rfl⟩ := Option.map_eq_some_iff.mp hgroup
      exact ih _ hrest (hused.groupCreate hcreate)

/-- The second write of an attribute is read back. -/
theorem second_write_read_back : ∃ s, newFile "perf.h5" ["timings"] = some s ∧
    LastWriteWins (.next Object)
      [.write "timings" "num_measurements" 1, .write "timings" "num_measurements" 2,
        .read "timings" "num_measurements"] (fun _ _ => none) s := by
  let calls : List (Call ℤ) := [.write "timings" "num_measurements" 1,
    .write "timings" "num_measurements" 2, .read "timings" "num_measurements"]
  have hrun : (newFile "perf.h5" ["timings"]).any (fun s =>
      decide (AllLand (.next Object) { name := "perf.h5", readonly := false } calls s) &&
        calls.all fun c => s.groupIds.contains c.groupname) = true := by
    decide +kernel
  obtain ⟨s, hs, htest⟩ := exists_some_of_any hrun
  rw [Bool.and_eq_true, decide_eq_true_iff, List.all_eq_true] at htest
  exact ⟨s, hs, (last_write_wins_iff (newFile_used hs) calls htest.2).mpr htest.1⟩

/-- The third write is lost. -/
theorem third_write_lost : ∃ s, newFile "perf.h5" ["timings"] = some s ∧
    ¬LastWriteWins (.next Object)
      [.write "timings" "num_measurements" 1, .write "timings" "num_measurements" 2,
        .write "timings" "num_measurements" 3] (fun _ _ => none) s := by
  let calls : List (Call ℤ) := [.write "timings" "num_measurements" 1,
    .write "timings" "num_measurements" 2, .write "timings" "num_measurements" 3]
  have hrun : (newFile "perf.h5" ["timings"]).any (fun s =>
      !decide (AllLand (.next Object) { name := "perf.h5", readonly := false } calls s) &&
        calls.all fun c => s.groupIds.contains c.groupname) = true := by
    decide +kernel
  obtain ⟨s, hs, htest⟩ := exists_some_of_any hrun
  rw [Bool.and_eq_true, Bool.not_eq_true', decide_eq_false_iff_not, List.all_eq_true] at htest
  refine ⟨s, hs, fun hwins => htest.1 ?_⟩
  exact (lastWriteWins_iff_of_holds calls (newFile_used hs).between
    (fun _ _ _ h => by cases h) htest.2).mp hwins

end Grvy.Hdf5
