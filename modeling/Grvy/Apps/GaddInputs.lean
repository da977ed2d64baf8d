import Mathlib
import Grvy.Apps.Gadd

/-!
What is left of `gadd`'s arguments when the options have been read.

Every option that is given erases one text from the arguments, in the order in which
the program reads the options. The three required arguments are left if these texts
are the values themselves and have nothing to do with the required arguments; only
the time may be a value as well, if that is the last value left at its turn. They are
not left otherwise, unless a value is erased by way of another option with this value.
-/

namespace Grvy.Apps

open Grvy.Lib
open GetPot (isMinus)

variable {D : Type} (numbers : Numbers D)

/-! ### The texts that are erased -/

/-- The text that an option erases. -/
def Kind.spell (k : Kind) (arg : Option CText) : CText :=
  match k with
  | .comment => arg.getD []
  | .revision => arg.getD "unknown".toList
  | .machine => arg.getD []
  | .jobId => intText (arg.elim (-1) fun text => numbers.toInt text (-1))
  | .numprocs => intText (arg.elim 1 fun text => numbers.toInt text 1)
  | .flops => numbers.doubleText
      (arg.elim numbers.zero fun text => numbers.toDouble text numbers.zero)

/-- The texts that are erased, one after the other. -/
def erased (args : List CText) : List CText :=
  Kind.all.flatMap fun k =>
    ((search2 k.long k.short args).map fun rest => k.spell numbers rest.head?).toList

theorem snd_readOptionalArgument {T : Type} (convert : CText → T → T) (lexicalCast : T → CText)
    (args : List CText) (optText1 optText2 : CText) (varname : T) (arguments : List CText) :
    (readOptionalArgument convert lexicalCast args optText1 optText2 varname arguments).2 =
      eraseAll ((search2 optText1 optText2 args).map fun rest =>
        lexicalCast (rest.head?.elim varname fun text => convert text varname)).toList
        arguments := by
  rw [readOptionalArgument]
  cases search2 optText1 optText2 args <;> rfl

theorem snd_readOptionalString (args : List CText) (optText1 optText2 varname : CText)
    (arguments : List CText) :
    (readOptionalString args optText1 optText2 varname arguments).2 =
      eraseAll ((search2 optText1 optText2 args).map fun rest =>
        rest.head?.getD varname).toList arguments := by
  rw [readOptionalString, snd_readOptionalArgument]
  congr 2
  ext rest
  cases search2 optText1 optText2 args with
  | none => rfl
  | some rest' =>
      rw [Option.map_some, Option.map_some]
      cases rest'.head? <;> rfl

/-- The options are read one after the other. -/
theorem snd_readOptions (args : List CText) :
    (readOptions numbers args).2 = eraseAll (erased numbers args) (nominusVector args) := by
  simp only [readOptions, snd_readOptionalArgument, snd_readOptionalString, ← eraseAll_append,
    erased, Kind.all, List.flatMap_cons, List.flatMap_nil, List.append_assoc, List.append_nil]
  rfl

/-! ### Searching a command line -/

@[simp] theorem isMinus_long (k : Kind) : isMinus k.long = true := by cases k <;> decide

@[simp] theorem isMinus_short (k : Kind) : isMinus k.short = true := by cases k <;> decide

@[simp] theorem isMinus_text (o : Given) : isMinus o.text = true := by
  rw [Given.text]
  split
  · exact isMinus_long o.kind
  · exact isMinus_short o.kind

theorem Kind.long_inj {k k' : Kind} (h : k.long = k'.long) : k = k' := by
  cases k <;> cases k' <;> first | rfl | exact absurd h (by decide)

theorem Kind.short_inj {k k' : Kind} (h : k.short = k'.short) : k = k' := by
  cases k <;> cases k' <;> first | rfl | exact absurd h (by decide)

theorem Kind.long_ne_short (k k' : Kind) : k.long ≠ k'.short := by
  cases k <;> cases k' <;> decide

theorem text_eq_long_iff (o : Given) (k : Kind) :
    o.text = k.long ↔ o.kind = k ∧ o.long = true := by
  rw [Given.text]
  split
  · next h => exact ⟨fun heq => ⟨Kind.long_inj heq, h⟩, fun heq => heq.1 ▸ rfl⟩
  · next h =>
      exact ⟨fun heq => absurd heq.symm (Kind.long_ne_short k o.kind), fun heq => absurd heq.2 h⟩

theorem text_eq_short_iff (o : Given) (k : Kind) :
    o.text = k.short ↔ o.kind = k ∧ o.long = false := by
  rw [Given.text]
  split
  · next h =>
      refine ⟨fun heq => absurd heq (Kind.long_ne_short o.kind k), fun heq => ?_⟩
      rw [h] at heq
      cases heq.2
  · next h =>
      exact ⟨fun heq => ⟨Kind.short_inj heq, (Bool.not_eq_true _).mp h⟩, fun heq => heq.1 ▸ rfl⟩

theorem long_mem_reserved (k : Kind) : k.long ∈ reserved := by cases k <;> decide

theorem short_mem_reserved (k : Kind) : k.short ∈ reserved := by cases k <;> decide

/-- The arguments without a minus are the values and the required arguments. -/
theorem nominusVector_args (line : CommandLine) :
    nominusVector line.args = line.values ++ nominusVector line.required := by
  have hitems : ∀ items : List Item, nominusVector (items.flatMap Item.args) =
      (items.flatMap Item.given).map Given.value := by
    intro items
    induction items with
    | nil => rfl
    | cons item items ih =>
        rw [List.flatMap_cons, nominusVector, List.filter_append, ← nominusVector,
          ← nominusVector, ih, List.flatMap_cons, List.map_append]
        congr 1
        cases item with
        | flag f =>
            have hf := f.property.1
            simp [Item.args, Item.given, nominusVector, hf]
        | option o =>
            have hvalue := o.value_plain
            simp [Item.args, Item.given, nominusVector, hvalue]
  rw [CommandLine.args, nominusVector, List.filter_append, ← nominusVector, ← nominusVector,
    hitems]
  rfl

theorem search_of_ne {option arg : CText} (hne : arg ≠ option) (rest : List CText) :
    search option (arg :: rest) = search option rest := if_neg hne

theorem search_of_notMem {option : CText} {args : List CText} (h : option ∉ args) :
    search option args = none := by
  induction args with
  | nil => rfl
  | cons arg args ih =>
      have hne : arg ≠ option := fun heq => h (heq ▸ List.mem_cons_self)
      rw [search_of_ne hne]
      exact ih fun hmem => h (List.mem_cons_of_mem arg hmem)

/-- A search for a text that is not a flag finds the first option with this text, and next to
it the value. -/
theorem head?_search {option : CText} (hminus : isMinus option = true) (hres : option ∈ reserved)
    {more : List CText} (hmore : option ∉ more) (items : List Item) :
    (search option (items.flatMap Item.args ++ more)).map List.head? =
      ((items.flatMap Item.given).find? fun o => o.text = option).map fun o => some o.value := by
  -- a value has no minus, so it is never taken for the option
  induction items with
  | nil =>
      rw [List.flatMap_nil, List.nil_append, search_of_notMem hmore]
      rfl
  | cons item items ih =>
      rw [List.flatMap_cons, List.append_assoc, List.flatMap_cons]
      cases item with
      | flag f =>
          have hne : f.val ≠ option := fun heq => f.property.2 (heq ▸ hres)
          rw [Item.args, List.singleton_append, search_of_ne hne, ih]
          rfl
      | option o =>
          rw [Item.args, Item.given, List.singleton_append, List.find?_cons]
          by_cases htext : o.text = option
          · rw [List.cons_append, search, if_pos htext, decide_eq_true htext]
            rfl
          · have hvalue : o.value ≠ option := by
              rintro heq
              have hplain := o.value_plain
              rw [heq, hminus] at hplain
              cases hplain
            rw [List.cons_append, List.singleton_append, search_of_ne htext,
              search_of_ne hvalue, ih,
              decide_eq_false htext]

/-- The options that are given, in the order in which they are read. -/
def readOrder (given : List Given) : List Given :=
  Kind.all.flatMap fun k => given.filter fun o => o.kind = k

section Given

variable {given : List Given}

/-- Of each kind there is one option at most. -/
theorem eq_of_kind_eq (hnodup : (given.map Given.kind).Nodup) {o o' : Given} (ho : o ∈ given)
    (ho' : o' ∈ given) (h : o'.kind = o.kind) : o' = o :=
  List.inj_on_of_nodup_map hnodup ho' ho h

theorem filter_kind (hnodup : (given.map Given.kind).Nodup) {o : Given} (ho : o ∈ given) :
    (given.filter fun o' => o'.kind = o.kind) = [o] := by
  have hall : ∀ o' ∈ given.filter fun o' => o'.kind = o.kind, o' = o := by
    intro o' ho'
    obtain ⟨hmem, hkind⟩ := List.mem_filter.mp ho'
    exact eq_of_kind_eq hnodup ho hmem (of_decide_eq_true hkind)
  have hmem : o ∈ given.filter fun o' => o'.kind = o.kind :=
    List.mem_filter.mpr ⟨ho, decide_eq_true rfl⟩
  apply List.perm_singleton.mp
  rw [List.perm_ext_iff_of_nodup ((hnodup.of_map Given.kind).filter _) (List.nodup_singleton o)]
  intro o'
  rw [List.mem_singleton]
  exact ⟨hall o', fun heq => heq ▸ hmem⟩

theorem find?_of_kind (hnodup : (given.map Given.kind).Nodup) {o : Given} (ho : o ∈ given)
    (p : Given → Bool) (hp : p o = true) (hkind : ∀ o', p o' = true → o'.kind = o.kind) :
    given.find? p = some o := by
  cases hfind : given.find? p with
  | none => exact absurd hp (List.find?_eq_none.mp hfind o ho)
  | some o' =>
      have hmem := List.mem_of_find?_eq_some hfind
      rw [eq_of_kind_eq hnodup ho hmem (hkind o' (List.find?_some hfind))]

/-- The two searches for an option find the one that is given. -/
theorem find?_kind (hnodup : (given.map Given.kind).Nodup) (k : Kind) :
    ((given.find? fun o => o.text = k.long).or (given.find? fun o => o.text = k.short)).toList =
      given.filter fun o => o.kind = k := by
  by_cases hex : ∃ o ∈ given, o.kind = k
  · obtain ⟨o, ho, rfl⟩ := hex
    rw [filter_kind hnodup ho]
    cases hlong : o.long with
    | true =>
        rw [find?_of_kind hnodup ho fun o' => o'.text = o.kind.long]
        · rfl
        · exact decide_eq_true ((text_eq_long_iff o o.kind).mpr ⟨rfl, hlong⟩)
        · exact fun o' h => ((text_eq_long_iff o' o.kind).mp (of_decide_eq_true h)).1
    | false =>
        -- the long spelling is searched for first, in vain
        have hnone : (given.find? fun o' => o'.text = o.kind.long) = none := by
          apply List.find?_eq_none.mpr
          intro o' ho' h
          obtain ⟨hkind, htrue⟩ := (text_eq_long_iff o' o.kind).mp (of_decide_eq_true h)
          rw [eq_of_kind_eq hnodup ho ho' hkind, hlong] at htrue
          cases htrue
        rw [hnone, Option.none_or, find?_of_kind hnodup ho fun o' => o'.text = o.kind.short]
        · rfl
        · exact decide_eq_true ((text_eq_short_iff o o.kind).mpr ⟨rfl, hlong⟩)
        · exact fun o' h => ((text_eq_short_iff o' o.kind).mp (of_decide_eq_true h)).1
  · have hnone : ∀ o ∈ given, o.kind ≠ k := fun o ho h => hex ⟨o, ho, h⟩
    have hlong : (given.find? fun o => o.text = k.long) = none := by
      apply List.find?_eq_none.mpr
      exact fun o ho h => hnone o ho ((text_eq_long_iff o k).mp (of_decide_eq_true h)).1
    have hshort : (given.find? fun o => o.text = k.short) = none := by
      apply List.find?_eq_none.mpr
      exact fun o ho h => hnone o ho ((text_eq_short_iff o k).mp (of_decide_eq_true h)).1
    rw [hlong, hshort, eq_comm]
    apply List.filter_eq_nil_iff.mpr
    exact fun o ho h => hnone o ho (of_decide_eq_true h)

theorem perm_readOrder (given : List Given) : (readOrder given).Perm given := by
  rw [List.perm_iff_count]
  intro o
  simp only [readOrder, Kind.all, List.flatMap_cons, List.flatMap_nil, List.append_nil,
    List.count_append]
  -- an option is read at the turn of its kind and at no other
  have hcount : ∀ k : Kind, (given.filter fun o' => o'.kind = k).count o =
      if o.kind = k then given.count o else 0 := by
    intro k
    by_cases hk : o.kind = k
    · rw [if_pos hk, List.count_filter (p := fun o' : Given => o'.kind = k) (decide_eq_true hk)]
    · rw [if_neg hk, List.count_eq_zero]
      exact fun hmem => hk (of_decide_eq_true (List.mem_filter.mp hmem).2)
  simp only [hcount]
  cases o.kind <;> simp

/-- The options are read by rank. -/
theorem pairwise_readOrder (given : List Given) :
    (readOrder given).Pairwise fun o o' => o.kind.rank ≤ o'.kind.rank := by
  have hall : Kind.all.Pairwise fun k k' => k.rank ≤ k'.rank := by decide
  have hkind : ∀ k o, (o ∈ given.filter fun o' => o'.kind = k) → o.kind = k := fun k o ho =>
    of_decide_eq_true (List.mem_filter.mp ho).2
  rw [readOrder, List.pairwise_flatMap]
  constructor
  · intro k _
    apply List.pairwise_of_forall_mem_list
    intro o ho o' ho'
    rw [hkind k o ho, hkind k o' ho']
  · apply hall.imp
    intro k k' hle o ho o' ho'
    rwa [hkind k o ho, hkind k' o' ho']

end Given

/-- What the options of a command line erase, if no required argument looks like an option. -/
theorem erased_args (line : CommandLine) (hplain : ∀ x ∈ line.required, isMinus x = false) :
    erased numbers line.args =
      (readOrder line.given).map fun o => o.kind.spell numbers (some o.value) := by
  have hmore : ∀ option, isMinus option = true → option ∉ line.required := by
    intro option hminus hmem
    rw [hplain option hmem] at hminus
    cases hminus
  rw [erased, readOrder, List.map_flatMap]
  congr 1
  ext1 k
  have hsearch : (search2 k.long k.short line.args).map List.head? =
      ((line.given.find? fun o => o.text = k.long).or
        (line.given.find? fun o => o.text = k.short)).map fun o => some o.value := by
    rw [search2, Option.map_or, Option.map_or, CommandLine.args,
      head?_search (isMinus_long k) (long_mem_reserved k) (hmore _ (isMinus_long k)),
      head?_search (isMinus_short k) (short_mem_reserved k) (hmore _ (isMinus_short k))]
    rfl
  have hspell : (search2 k.long k.short line.args).map (fun rest => k.spell numbers rest.head?) =
      ((line.given.find? fun o => o.text = k.long).or
        (line.given.find? fun o => o.text = k.short)).map fun o =>
          k.spell numbers (some o.value) := by
    have h := congrArg (Option.map (k.spell numbers)) hsearch
    rwa [Option.map_map, Option.map_map] at h
  rw [hspell, Option.toList_map]
  have hkind := find?_kind line.once k
  rw [← CommandLine.given] at hkind
  rw [hkind]
  apply List.map_congr_left
  intro o ho
  rw [of_decide_eq_true (List.mem_filter.mp ho).2]

/-! ### What is left -/

/-- The arguments that are left for the time, the name and the file. -/
def inputs (line : CommandLine) : Option (List CText) :=
  (parseSupportedOptions numbers line.args).map Prod.snd

/-- The texts that are erased are the values, and the required arguments are no options and no
values. The time may be the value of one option, if the values behind that one on the command
line are all among the values that are read before it. -/
structure CommandLine.Unmixed (line : CommandLine) : Prop where
  plain : ∀ x ∈ line.required, isMinus x = false
  spelled : ∀ o ∈ line.given, o.kind.spell numbers (some o.value) = o.value
  name_file : ∀ o ∈ line.given, o.value ≠ line.name ∧ o.value ≠ line.file
  time : ∀ before o after, line.given = before ++ o :: after → o.value = line.time →
    (∀ o' ∈ before ++ after, o'.value ≠ line.time) ∧
      (after.map Given.value).Subperm
        ((line.given.filter fun o' => o'.kind.rank < o.kind.rank).map Given.value)

/-- A number that is not spelled as it is printed is the value of no other option, and no two
options behind one that has the time as its value have the same value. -/
structure CommandLine.Apart (line : CommandLine) : Prop where
  respelled : ∀ o ∈ line.given, o.kind.spell numbers (some o.value) ≠ o.value →
    ∀ o' ∈ line.given, o'.value = o.value → o' = o
  behind : ∀ before o after, line.given = before ++ o :: after → o.value = line.time →
    (after.map Given.value).Nodup

section Inputs

variable {numbers} {line : CommandLine}

/-- `--version` and `--help` are not there. -/
theorem search_args_of_last {option : CText} (hplain : ∀ x ∈ line.required, isMinus x = false)
    (hminus : isMinus option = true) (hres : option ∈ reserved)
    (hlong : ∀ k : Kind, option ≠ k.long) (hshort : ∀ k : Kind, option ≠ k.short) :
    search option line.args = none := by
  apply search_of_notMem
  intro hmem
  rcases List.mem_append.mp hmem with hmem | hmem
  · obtain ⟨item, -, harg⟩ := List.mem_flatMap.mp hmem
    cases item with
    | flag f => exact f.property.2 (List.mem_singleton.mp harg ▸ hres)
    | option o =>
        rcases List.mem_cons.mp harg with htext | hvalue
        · rw [Given.text] at htext
          split at htext
          · exact hlong o.kind htext
          · exact hshort o.kind htext
        · have hplain' := o.value_plain
          rw [← List.mem_singleton.mp hvalue, hminus] at hplain'
          cases hplain'
  · rw [hplain option hmem] at hminus
    cases hminus

theorem inputs_eq (hplain : ∀ x ∈ line.required, isMinus x = false) :
    inputs numbers line = some (eraseAll
      ((readOrder line.given).map fun o => o.kind.spell numbers (some o.value))
      (line.values ++ line.required)) := by
  have hversion : search "--version".toList line.args = none :=
    search_args_of_last hplain (by decide) (by decide) (fun k => by cases k <;> decide)
      fun k => by cases k <;> decide
  have hhelp : search "--help".toList line.args = none :=
    search_args_of_last hplain (by decide) (by decide) (fun k => by cases k <;> decide)
      fun k => by cases k <;> decide
  have hh : search "-h".toList line.args = none :=
    search_args_of_last hplain (by decide) (by decide) (fun k => by cases k <;> decide)
      fun k => by cases k <;> decide
  have hrequired : nominusVector line.required = line.required := by
    apply List.filter_eq_self.mpr
    intro x hx
    rw [hplain x hx]
    rfl
  rw [inputs, parseSupportedOptions, hversion, search2, hhelp, hh]
  simp only [Option.isSome_none, Bool.false_eq_true, if_false, Option.or_none, Option.map_some]
  rw [snd_readOptions, erased_args numbers line hplain, nominusVector_args, hrequired]

theorem given_nodup (line : CommandLine) : line.given.Nodup :=
  List.Nodup.of_map Given.kind line.once

theorem Kind.rank_inj {k k' : Kind} (h : k.rank = k'.rank) : k = k' := by
  cases k <;> cases k' <;> first | rfl | exact absurd h (by decide)

/-- What is read before an option is what has a smaller rank. -/
theorem filter_rank_perm (line : CommandLine) {first last : List Given} {o : Given}
    (hsplit : readOrder line.given = first ++ o :: last) :
    (line.given.filter fun o' => o'.kind.rank < o.kind.rank).Perm first := by
  have hperm := perm_readOrder line.given
  have hsorted := pairwise_readOrder line.given
  have hnodup := hperm.nodup_iff.mpr (given_nodup line)
  rw [hsplit, List.pairwise_append] at hsorted
  rw [hsplit] at hnodup
  have hmem : ∀ o' ∈ first ++ o :: last, o' ∈ line.given := by
    intro o' ho'
    rwa [← hperm.mem_iff, hsplit]
  have ho := hmem o (List.mem_append_right first List.mem_cons_self)
  have hfirst : ∀ o' ∈ first, o'.kind.rank < o.kind.rank := by
    intro o' ho'
    have hle := hsorted.2.2 o' ho' o List.mem_cons_self
    -- of one rank there is one option only
    have hne : o'.kind.rank ≠ o.kind.rank := by
      intro hrank
      have heq := eq_of_kind_eq line.once ho (hmem o' (List.mem_append_left _ ho'))
        (Kind.rank_inj hrank)
      exact (List.nodup_append.mp hnodup).2.2 o' ho' o List.mem_cons_self heq
    omega
  have hlast : ∀ o' ∈ o :: last, ¬ o'.kind.rank < o.kind.rank := by
    intro o' ho'
    rcases List.mem_cons.mp ho' with rfl | ho'
    · exact Nat.lt_irrefl _
    · exact Nat.not_lt.mpr ((List.pairwise_cons.mp hsorted.2.1).1 o' ho')
  have hfilter : ((readOrder line.given).filter fun o' => o'.kind.rank < o.kind.rank) = first := by
    rw [hsplit, List.filter_append, List.filter_eq_self.mpr, List.filter_eq_nil_iff.mpr,
      List.append_nil]
    · exact fun o' ho' h => hlast o' ho' (of_decide_eq_true h)
    · exact fun o' ho' => decide_eq_true (hfirst o' ho')
  rw [← hfilter]
  exact (hperm.filter _).symm

theorem erased_spelled
    (hspelled : ∀ o ∈ line.given, o.kind.spell numbers (some o.value) = o.value) :
    ((readOrder line.given).map fun o => o.kind.spell numbers (some o.value)) =
      (readOrder line.given).map Given.value := by
  apply List.map_congr_left
  exact fun o ho => hspelled o ((perm_readOrder line.given).mem_iff.mp ho)

theorem CommandLine.Unmixed.inputs (h : line.Unmixed numbers) :
    inputs numbers line = some line.required := by
  rw [inputs_eq h.plain, erased_spelled h.spelled]
  congr 1
  have hperm : ((readOrder line.given).map Given.value).Perm line.values :=
    (perm_readOrder line.given).map Given.value
  have hrest : ∀ a ∈ (readOrder line.given).map Given.value, a ∉ [line.name, line.file] := by
    intro a ha hmem
    obtain ⟨o, ho, rfl⟩ := List.mem_map.mp ha
    obtain ⟨hname, hfile⟩ := h.name_file o ((perm_readOrder line.given).mem_iff.mp ho)
    simp only [List.mem_cons, List.not_mem_nil, or_false] at hmem
    exact hmem.elim hname hfile
  by_cases htime : ∃ o ∈ line.given, o.value = line.time
  · obtain ⟨o, ho, hvalue⟩ := htime
    obtain ⟨before, after, hgiven⟩ := List.append_of_mem ho
    obtain ⟨first, last, hread⟩ := List.append_of_mem
      ((perm_readOrder line.given).mem_iff.mpr ho)
    obtain ⟨honce, hafter⟩ := h.time before o after hgiven hvalue
    have hvalues : line.values = before.map Given.value ++ line.time :: after.map Given.value := by
      rw [CommandLine.values, hgiven, List.map_append, List.map_cons, hvalue]
    have herased : (readOrder line.given).map Given.value =
        first.map Given.value ++ line.time :: last.map Given.value := by
      rw [hread, List.map_append, List.map_cons, hvalue]
    rw [hvalues, herased] at hperm
    rw [herased] at hrest
    rw [hvalues, herased]
    apply eraseAll_eq_of_first hperm _ _ hrest _
    · intro hmem
      obtain ⟨o', ho', heq⟩ := List.mem_map.mp hmem
      exact honce o' (List.mem_append_left after ho') heq
    · intro hmem
      obtain ⟨o', ho', heq⟩ := List.mem_map.mp hmem
      exact honce o' (List.mem_append_right before ho') heq
    · -- the values behind this one have been read
      exact hafter.trans ((filter_rank_perm line hread).map Given.value).subperm
  · apply eraseAll_eq_of_notMem hperm
    intro a ha hmem
    rcases List.mem_cons.mp hmem with rfl | hmem
    · obtain ⟨o, ho, heq⟩ := List.mem_map.mp ha
      exact htime ⟨o, (perm_readOrder line.given).mem_iff.mp ho, heq⟩
    · exact hrest a ha hmem

/-! ### What it takes -/

theorem plain_of_inputs (h : inputs numbers line = some line.required) :
    ∀ x ∈ line.required, isMinus x = false := by
  obtain ⟨⟨options, rest⟩, hparse, hrest⟩ := Option.map_eq_some_iff.mp h
  rw [parseSupportedOptions] at hparse
  split at hparse
  · cases hparse
  · split at hparse
    · cases hparse
    · intro x hx
      have hleft : (readOptions numbers line.args).2 = line.required := by
        rw [Option.some.inj hparse]
        exact hrest
      rw [← hleft, snd_readOptions] at hx
      have hmem := mem_of_mem_eraseAll hx
      rw [nominusVector, List.mem_filter] at hmem
      simpa using hmem.2

/-- What an `int` is printed with is erased by an option that has it as value. -/
theorem spell_intText (k : Kind) (text : CText) (n : Int32) :
    k.spell numbers (some (intText (numbers.toInt text n))) = intText (numbers.toInt text n) := by
  cases k with
  | comment => rfl
  | revision => rfl
  | machine => rfl
  | jobId => exact congrArg intText (numbers.toInt_intText text n (-1))
  | numprocs => exact congrArg intText (numbers.toInt_intText text n 1)
  | flops => exact numbers.doubleText_intText text n numbers.zero

theorem spell_cases (numbers : Numbers D) (k : Kind) (value : CText) :
    (k.spell numbers (some value) = value ∧ k ≠ .flops) ∨
      (∃ text n, k.spell numbers (some value) = intText (numbers.toInt text n)) ∨ k = .flops := by
  cases k with
  | comment => exact .inl ⟨rfl, nofun⟩
  | revision => exact .inl ⟨rfl, nofun⟩
  | machine => exact .inl ⟨rfl, nofun⟩
  | jobId => exact .inr (.inl ⟨value, -1, rfl⟩)
  | numprocs => exact .inr (.inl ⟨value, 1, rfl⟩)
  | flops => exact .inr (.inr rfl)

/-- If every value is erased by some option, every option erases its own value: the number of
`-f` alone is not printed as an `int`, and no other option can erase its value. -/
theorem spelled_of_erased (hapart : line.Apart numbers)
    (h : ∀ o ∈ line.given, ∃ o' ∈ line.given, o'.kind.spell numbers (some o'.value) = o.value) :
    ∀ o ∈ line.given, o.kind.spell numbers (some o.value) = o.value := by
  have hown : ∀ (o : Given) text n, o.value = intText (numbers.toInt text n) →
      o.kind.spell numbers (some o.value) = o.value := by
    intro o text n heq
    rw [heq, spell_intText]
  intro o ho
  by_contra hother
  obtain ⟨o', ho', heq⟩ := h o ho
  by_cases hself : o'.kind.spell numbers (some o'.value) = o'.value
  · rw [hself] at heq
    rw [hapart.respelled o ho hother o' ho' heq] at hself
    exact hother hself
  · -- a number, and not an `int`; its own value must be erased as well
    obtain ⟨o'', ho'', heq'⟩ := h o' ho'
    rcases spell_cases numbers o'.kind o'.value with ⟨htext, -⟩ | ⟨text, n, hint⟩ | hflops
    · exact hself htext
    · exact hother (hown o text n (heq.symm.trans hint))
    · rcases spell_cases numbers o''.kind o''.value with
        ⟨htext, hne⟩ | ⟨text, n, hint⟩ | hflops'
      · rw [htext] at heq'
        rw [hapart.respelled o' ho' hself o'' ho'' heq'] at hne
        exact hne hflops
      · exact hself (hown o' text n (heq'.symm.trans hint))
      · rw [eq_of_kind_eq line.once ho' ho'' (hflops'.trans hflops.symm)] at heq'
        exact hself heq'

theorem unmixed_of_inputs (hapart : line.Apart numbers)
    (h : inputs numbers line = some line.required) : line.Unmixed numbers := by
  have hplain := plain_of_inputs h
  have herase := h
  rw [inputs_eq hplain, Option.some.injEq] at herase
  have hspelled : ∀ o ∈ line.given, o.kind.spell numbers (some o.value) = o.value := by
    apply spelled_of_erased hapart
    intro o ho
    obtain ⟨o', ho', heq⟩ := List.mem_map.mp
      (mem_of_eraseAll_eq herase (List.mem_map_of_mem ho))
    exact ⟨o', (perm_readOrder line.given).mem_iff.mp ho', heq⟩
  rw [erased_spelled hspelled] at herase
  have hperm : ((readOrder line.given).map Given.value).Perm line.values :=
    (perm_readOrder line.given).map Given.value
  refine ⟨hplain, hspelled, fun o ho => ?_, fun before o after hgiven htime => ?_⟩
  · have hrest := notMem_rest_of_eraseAll_eq hperm herase (List.mem_map_of_mem ho)
    simp only [List.mem_cons, List.not_mem_nil, or_false, not_or] at hrest
    exact hrest
  · have ho : o ∈ line.given := by
      rw [hgiven]
      exact List.mem_append_right before List.mem_cons_self
    obtain ⟨first, last, hread⟩ := List.append_of_mem
      ((perm_readOrder line.given).mem_iff.mpr ho)
    have hvalues : line.values = before.map Given.value ++ line.time :: after.map Given.value := by
      rw [CommandLine.values, hgiven, List.map_append, List.map_cons, htime]
    rw [hread, List.map_append, List.map_cons, htime] at herase hperm
    rw [hvalues] at herase hperm
    constructor
    · have hnot := (between_eq_nil [] hperm herase).1
      rw [← List.map_append] at hnot
      exact fun o' ho' heq => hnot (heq ▸ List.mem_map_of_mem ho')
    -- behind it each value stands once, so it is enough that it is read before
    · apply (List.subperm_of_subset (hapart.behind before o after hgiven htime) _).trans
        ((filter_rank_perm line hread).symm.map Given.value).subperm
      exact mem_first_of_eraseAll_eq hperm herase

end Inputs

/-- The time, the name and the file are left if the values have nothing to do with them and are
spelled as they are printed. Where no value is erased by way of another option, they are left
only then. -/
theorem gadd_keeps_required (numbers : Numbers D) (line : CommandLine) :
    (line.Unmixed numbers → inputs numbers line = some line.required) ∧
      (line.Apart numbers → inputs numbers line = some line.required → line.Unmixed numbers) :=
  ⟨fun h => h.inputs, unmixed_of_inputs⟩

/-- Numbers without a fraction. -/
def wholeNumbers : Numbers Int32 where
  toInt := fun text n => ((String.ofList text).toInt?.map Int32.ofInt).getD n
  toDouble := fun text n => ((String.ofList text).toInt?.map Int32.ofInt).getD n
  doubleText := intText
  zero := 0
  toInt_intText := by
    intro text n m
    simp [intText, Int.toInt?_repr]
  doubleText_intText := by
    intro text n d
    simp [intText, Int.toInt?_repr]

/-- `-c foo 1.0 name file`, for a name. -/
def commented (name : CText) : CommandLine where
  items := [.option
    { kind := .comment, long := false, value := "foo".toList, value_plain := by decide }]
  time := "1.0".toList
  name := name
  file := "file".toList
  once := List.nodup_singleton _

theorem bar_kept : inputs wholeNumbers (commented "bar".toList) =
    some (commented "bar".toList).required := by
  apply (gadd_keeps_required wholeNumbers (commented "bar".toList)).1
  have hgiven : ∀ o ∈ (commented "bar".toList).given,
      o.kind = .comment ∧ o.value = "foo".toList := by
    decide
  refine ⟨by decide, ?_, ?_, ?_⟩
  · intro o ho
    obtain ⟨hkind, -⟩ := hgiven o ho
    rw [hkind]
    rfl
  · intro o ho
    rw [(hgiven o ho).2]
    decide
  · intro before o after hsplit htime
    have ho : o ∈ (commented "bar".toList).given := by
      rw [hsplit]
      exact List.mem_append_right before List.mem_cons_self
    rw [(hgiven o ho).2] at htime
    exact absurd htime (by decide)

/-- The name is lost if it is the comment, too. -/
theorem foo_lost : inputs wholeNumbers (commented "foo".toList) =
      some ["1.0".toList, "file".toList] ∧
    inputs wholeNumbers (commented "foo".toList) ≠ some (commented "foo".toList).required := by
  decide

end Grvy.Apps
