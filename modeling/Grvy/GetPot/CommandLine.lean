import Grvy.GetPot.Documents

/-!
Command lines: the cursor of GetPot, the arguments without a minus, and those that nobody has
asked for.

A search begins at the cursor and goes round, and what follows is read by moving the cursor
on. The arguments without a minus are kept by their positions, which count empty arguments
although these are not stored.
-/

namespace Grvy.GetPot

open Grvy.Lib

/-- The object of a command line and its cursor. -/
structure CommandLine where
  object : Object
  cursor : ℕ
  searchFailed : Bool
  searchLoop : Bool

/-- The first place where an argument is, of `count` places from `first` on. -/
def placeOf (argv : List CText) (option : CText) (first count : ℕ) : Option ℕ :=
  (List.range' first count).find? fun c => argv[c]? = some option

namespace CommandLine

/-- After the constructor. -/
def ofObject (o : Object) : CommandLine where
  object := o
  cursor := 0
  searchFailed := true
  searchLoop := true

def argv (cl : CommandLine) : List CText := cl.object.argv

def requested (cl : CommandLine) : List CText := cl.object.requestedArguments

/-- `__record_argument_request`. -/
def recordArgumentRequest (cl : CommandLine) (name : CText) : CommandLine :=
  { cl with
    object := { cl.object with requestedArguments := cl.object.requestedArguments ++ [name] } }

/-- `search`. -/
def search (option : CText) (cl : CommandLine) : Bool × CommandLine :=
  let oldCursor := if cl.argv.length ≤ cl.cursor then cl.argv.length - 1 else cl.cursor
  let failed := { cl.recordArgumentRequest option with searchFailed := true }
  let found := (placeOf cl.argv option cl.cursor (cl.argv.length - cl.cursor)).or
    (if cl.searchLoop then placeOf cl.argv option 1 (oldCursor - 1) else none)
  match found with
  | some c => (true, { failed with cursor := c, searchFailed := false })
  | none => (false, failed)

/-- The loop of `search` of several options. What comes behind a hit is recorded. -/
def searchFrom : List CText → CommandLine → Bool × CommandLine
  | [], cl => (false, cl)
  | opt :: opts, cl =>
      let r := cl.search opt
      if r.1 then (true, opts.foldl recordArgumentRequest r.2) else searchFrom opts r.2

/-- `search` of several options. What comes behind a hit of the first one is not recorded. -/
def searchAny : List CText → CommandLine → Bool × CommandLine
  | [], cl => (false, cl)
  | p :: opts, cl =>
      let r := cl.search p
      if r.1 then (true, r.2) else searchFrom opts r.2

/-- `next`, for a type with its conversion. The argument itself is what a text is given. -/
def next {T : Type} (convert : CText → T → T) (default : T) (cl : CommandLine) :
    T × CommandLine :=
  if cl.searchFailed then (default, cl)
  else
    match cl.argv[cl.cursor + 1]? with
    | none => (default, { cl with cursor := cl.argv.length })
    | some arg =>
        (if arg = [] then default else convert arg default,
          { cl.recordArgumentRequest arg with cursor := cl.cursor + 1 })

/-- `nominus_vector`. It has no value if a position is not in the vector. -/
def nominusVector (cl : CommandLine) : Option (List CText × CommandLine) :=
  (cl.object.idxNominus.mapM fun i => cl.argv[i]?).map fun nv =>
    (nv, nv.foldl recordArgumentRequest cl)

/-- `unidentified_options`, which are all arguments that have not been asked for. -/
def unidentifiedOptions (cl : CommandLine) : List CText :=
  (cl.argv.drop 1).filter fun arg => arg ≠ [] && arg ∉ cl.requested

end CommandLine

/-! ### Plain arguments -/

/-- An argument that is stored as it is, or empty. -/
structure IsPlainArgument (arg : CText) : Prop where
  text : IsText arg
  label : isLabel arg = false
  null : nul ∉ arg

instance (arg : CText) : Decidable (IsPlainArgument arg) :=
  decidable_of_iff (IsText arg ∧ isLabel arg = false ∧ nul ∉ arg)
    ⟨fun h => ⟨h.1, h.2.1, h.2.2⟩, fun h => ⟨h.text, h.label, h.null⟩⟩

def isNominus (arg : CText) : Bool := arg ≠ [] && !isMinus arg

/-- The positions of the arguments without a minus, from position `i` on. -/
def nominusPlaces (i : ℕ) : List CText → List ℕ
  | [] => []
  | arg :: args =>
      if isNominus arg then i :: nominusPlaces (i + 1) args else nominusPlaces (i + 1) args

section Plain

variable {arg : CText} {args : List CText} {s : Object × List CText}

theorem readArgument_plain (h : IsPlainArgument arg) (hne : arg ≠ []) (i : ℕ)
    (hsection : s.1.scope.activeSection = []) :
    readArgument i arg s = ((s.1.storeArgument arg).recordArgument i arg, s.2) := by
  rw [readArgument_other hne h.label, hsection, List.nil_append]

theorem readFrom_plain (h : ∀ arg ∈ args, IsPlainArgument arg) (i : ℕ)
    (hsection : s.1.scope.activeSection = []) :
    (readFrom i args s).1.argv = s.1.argv ++ args.filter (· ≠ []) ∧
      (readFrom i args s).1.idxNominus = s.1.idxNominus ++ nominusPlaces i args ∧
      (readFrom i args s).1.requestedArguments =
        s.1.requestedArguments ++ args.filter fun arg => (splitAssignment arg).isSome := by
  induction args generalizing i s with
  | nil => simp [readFrom, nominusPlaces]
  | cons arg args ih =>
      have hargs : ∀ x ∈ args, IsPlainArgument x := fun x hx => h x (List.mem_cons_of_mem arg hx)
      by_cases hne : arg = []
      · subst hne
        obtain ⟨hargv, hidx, hrequested⟩ := ih hargs (i + 1) hsection
        refine ⟨hargv, ?_, hrequested⟩
        exact hidx
      · have hread := readArgument_plain (h arg List.mem_cons_self) hne i hsection
        obtain ⟨hargv, hidx, hrequested⟩ := ih hargs (i + 1) (s := readArgument i arg s)
          (by rw [hread]; exact hsection)
        rw [readFrom, hargv, hidx, hrequested, hread]
        refine ⟨?_, ?_, ?_⟩
        · rw [List.filter_cons_of_pos (by simpa using hne)]
          exact List.append_assoc _ _ _
        · show (if arg.head? ≠ some '-' then s.1.idxNominus ++ [i] else s.1.idxNominus) ++ _ = _
          by_cases hminus : arg.head? = some '-'
          · simp [nominusPlaces, isNominus, isMinus, hminus]
          · simp [nominusPlaces, isNominus, isMinus, hminus, hne]
        · show (if (splitAssignment arg).isSome then s.1.requestedArguments ++ [arg]
            else s.1.requestedArguments) ++ _ = _
          by_cases hsplit : (splitAssignment arg).isSome = true
          · simp [hsplit]
          · simp [hsplit]

/-- What is stored of plain arguments. -/
theorem construct_plain (d : Doubles) (h : ∀ arg ∈ args, IsPlainArgument arg) (name : CText) :
    ∃ o, Settles (fun n => construct d n name args) o ∧
      o.argv = name :: args.filter (· ≠ []) ∧ o.idxNominus = nominusPlaces 1 args ∧
      o.requestedArguments = args.filter fun arg => (splitAssignment arg).isSome := by
  have hends : ∀ arg ∈ args, EndsIfLabel arg := by
    intro arg harg hlabel
    rw [(h arg harg).label] at hlabel
    cases hlabel
  refine ⟨_, (construct_settles_iff d (fun arg harg => (h arg harg).text) name _).mpr
    ⟨hends, rfl⟩, ?_⟩
  exact readFrom_plain h 1 (s := (Object.initial name, [])) rfl

end Plain

/-! ### Arguments without a minus -/

section Nominus

variable {args front back : List CText} {arg : CText}

theorem mapM_eq_some_iff {α β : Type} {f : α → Option β} {l : List α} {r : List β} :
    l.mapM f = some r ↔ l.map f = r.map some := by
  induction l generalizing r with
  | nil => cases r <;> simp
  | cons a l ih =>
      rw [List.mapM_cons, List.map_cons]
      cases ha : f a with
      | none => cases r <;> simp
      | some b =>
          cases r with
          | nil => cases l.mapM f <;> simp
          | cons c r =>
              rw [List.map_cons, List.cons.injEq, ← ih]
              cases l.mapM f <;> simp

theorem nominusPlaces_append (i : ℕ) (front back : List CText) :
    nominusPlaces i (front ++ back) =
      nominusPlaces i front ++ nominusPlaces (i + front.length) back := by
  induction front generalizing i with
  | nil => rfl
  | cons arg front ih =>
      have hnext := ih (i + 1)
      rw [Nat.add_right_comm, Nat.add_assoc] at hnext
      rw [List.cons_append, nominusPlaces, nominusPlaces, hnext, List.length_cons]
      split <;> rfl

theorem nominusPlaces_eq_nil (h : ∀ arg ∈ args, isNominus arg = false) (i : ℕ) :
    nominusPlaces i args = [] := by
  induction args generalizing i with
  | nil => rfl
  | cons arg args ih =>
      rw [nominusPlaces, h arg List.mem_cons_self, if_neg Bool.false_ne_true,
        ih fun x hx => h x (List.mem_cons_of_mem arg hx)]

theorem filter_nominus_eq_nil (h : ∀ arg ∈ args, isNominus arg = false) :
    args.filter isNominus = [] :=
  List.filter_eq_nil_iff.mpr fun b hb => by rw [h b hb]; exact Bool.false_ne_true

/-- The positions are those in a vector with all arguments in it. -/
theorem read_nominusPlaces (before front more : List CText) :
    ((nominusPlaces before.length front).map fun i => (before ++ front ++ more)[i]?) =
      (front.filter isNominus).map some := by
  induction front generalizing before with
  | nil => rfl
  | cons arg front ih =>
      have hfront := ih (before ++ [arg])
      have hmove : before ++ [arg] ++ front ++ more = before ++ arg :: front ++ more := by simp
      rw [List.length_append, List.length_singleton, hmove] at hfront
      rw [nominusPlaces]
      have hget : (before ++ arg :: front ++ more)[before.length]? = some arg := by simp
      by_cases hnominus : isNominus arg = true
      · rw [if_pos hnominus, List.filter_cons_of_pos hnominus, List.map_cons, List.map_cons, hget,
          hfront]
      · rw [if_neg hnominus, List.filter_cons_of_neg hnominus, hfront]

/-- Behind an empty argument the last position is not that of its argument. -/
theorem read_ne_last {A B : List CText} (hempty : [] ∈ A) (hB : ∀ b ∈ B, isNominus b = false)
    (harg : isNominus arg = true) (name : CText) :
    (name :: (A ++ arg :: B).filter (· ≠ []))[1 + A.length]? ≠ some arg := by
  intro hget
  have hlt : (A.filter (· ≠ [])).length < A.length := by
    refine List.length_filter_lt_length_iff_exists.mpr ⟨[], hempty, by simp⟩
  obtain ⟨k, hk⟩ : ∃ k, A.length = (A.filter (· ≠ [])).length + (k + 1) :=
    ⟨A.length - (A.filter (· ≠ [])).length - 1, by omega⟩
  have hne : arg ≠ [] := by
    rintro rfl
    cases harg
  rw [Nat.add_comm, List.getElem?_cons_succ, List.filter_append,
    List.filter_cons_of_pos (by simpa using hne), hk,
    List.getElem?_append_right (Nat.le_add_right _ _), Nat.add_sub_cancel_left,
    List.getElem?_cons_succ] at hget
  have hmem := (List.mem_filter.mp (List.mem_of_getElem? hget)).1
  rw [hB arg hmem] at harg
  cases harg

/-- The last argument without a minus. -/
theorem exists_last_nominus {args : List CText} (h : ∃ a ∈ args, isNominus a = true) :
    ∃ A a B, args = A ++ a :: B ∧ isNominus a = true ∧ ∀ b ∈ B, isNominus b = false := by
  induction args with
  | nil =>
      obtain ⟨a, ha, -⟩ := h
      exact absurd ha List.not_mem_nil
  | cons x args ih =>
      by_cases hrest : ∃ a ∈ args, isNominus a = true
      · obtain ⟨A, a, B, rfl, ha, hB⟩ := ih hrest
        exact ⟨x :: A, a, B, rfl, ha, hB⟩
      · have hnone : ∀ b ∈ args, isNominus b = false := fun b hb =>
          Bool.eq_false_iff.mpr fun hb' => hrest ⟨b, hb, hb'⟩
        obtain ⟨a, ha, hnominus⟩ := h
        rcases List.mem_cons.mp ha with rfl | ha
        · exact ⟨[], a, args, rfl, hnominus, hnone⟩
        · exact absurd ⟨a, ha, hnominus⟩ hrest

theorem reads_iff (name : CText) (args : List CText) :
    (((nominusPlaces 1 args).map fun i => (name :: args.filter (· ≠ []))[i]?) =
        (args.filter isNominus).map some) ↔
      ∀ before arg after, args = before ++ arg :: after → isNominus arg = true →
        [] ∉ before := by
  constructor
  · rintro hreads before arg after rfl harg hempty
    have hsome : ∃ a ∈ arg :: after, isNominus a = true := ⟨arg, List.mem_cons_self, harg⟩
    obtain ⟨A, a, B, hsplit, ha, hB⟩ := exists_last_nominus hsome
    have hargs : before ++ arg :: after = (before ++ A) ++ a :: B := by
      rw [hsplit, List.append_assoc]
    have hfilter : ((before ++ A) ++ a :: B).filter isNominus =
        (before ++ A).filter isNominus ++ [a] := by
      rw [List.filter_append, List.filter_cons_of_pos ha,
        filter_nominus_eq_nil hB]
    rw [hargs, hfilter, nominusPlaces_append, nominusPlaces, if_pos ha, nominusPlaces_eq_nil hB,
      List.map_append, List.map_append] at hreads
    have hlast := (List.append_inj' hreads rfl).2
    exact read_ne_last (List.mem_append_left A hempty) hB ha name (List.cons.inj hlast).1
  · intro hbefore
    by_cases hempty : [] ∈ args
    · obtain ⟨front, back, rfl, hfront⟩ := List.eq_append_cons_of_mem hempty
      have hback : ∀ b ∈ [] :: back, isNominus b = false := by
        intro b hb
        rcases List.mem_cons.mp hb with rfl | hb
        · rfl
        · obtain ⟨b₁, b₂, rfl⟩ := List.append_of_mem hb
          refine Bool.eq_false_iff.mpr fun hnominus => ?_
          refine hbefore (front ++ [] :: b₁) b b₂ (by simp) hnominus ?_
          exact List.mem_append_right front List.mem_cons_self
      have hkeep : front.filter (· ≠ []) = front :=
        List.filter_eq_self.mpr fun a ha => by simpa using fun heq : a = [] => hfront (heq ▸ ha)
      have hstored : (front ++ [] :: back).filter (· ≠ []) =
          front ++ ([] :: back).filter (· ≠ []) := by rw [List.filter_append, hkeep]
      have hfilter : (front ++ [] :: back).filter isNominus = front.filter isNominus := by
        rw [List.filter_append, filter_nominus_eq_nil hback, List.append_nil]
      rw [nominusPlaces_append, nominusPlaces_eq_nil hback, List.append_nil, hstored, hfilter]
      exact read_nominusPlaces [name] front (([] :: back).filter (· ≠ []))
    · have hkeep : args.filter (· ≠ []) = args :=
        List.filter_eq_self.mpr fun a ha => by simpa using fun heq : a = [] => hempty (heq ▸ ha)
      have hread := read_nominusPlaces [name] args []
      rw [List.append_nil] at hread
      rw [hkeep]
      exact hread

/-- The vector of the arguments without a minus has these arguments in it if and only if no
empty argument comes before one of them. -/
theorem nominusVector_iff (d : Doubles) (h : ∀ arg ∈ args, IsPlainArgument arg) (name : CText) :
    ∃ o, Settles (fun n => construct d n name args) o ∧
      ((CommandLine.ofObject o).nominusVector.map Prod.fst = some (args.filter isNominus) ↔
        ∀ before arg after, args = before ++ arg :: after → isNominus arg = true →
          [] ∉ before) := by
  obtain ⟨o, hsettles, hargv, hidx, -⟩ := construct_plain d h name
  refine ⟨o, hsettles, ?_⟩
  rw [← reads_iff name args, ← mapM_eq_some_iff, CommandLine.nominusVector, Option.map_map]
  have hid : (Prod.fst ∘ fun nv : List CText =>
      (nv, nv.foldl CommandLine.recordArgumentRequest (CommandLine.ofObject o))) = id := rfl
  have hobject : (CommandLine.ofObject o).object = o := rfl
  have hvector : (CommandLine.ofObject o).argv = o.argv := rfl
  rw [hid, Option.map_id, hobject, hvector, hargv, hidx]
  exact Iff.rfl

/-- The position of `b` is behind the end. -/
theorem empty_argument_counted :
    ∃ o, Settles (fun n => construct wholeDoubles n "p".toList [[], ['b']]) o ∧
      (CommandLine.ofObject o).nominusVector.map Prod.fst ≠ some [['b']] := by
  have hplain : ∀ arg ∈ [[], ['b']], IsPlainArgument arg := by decide
  obtain ⟨o, hsettles, hiff⟩ := nominusVector_iff wholeDoubles hplain "p".toList
  refine ⟨o, hsettles, fun heq => ?_⟩
  exact hiff.mp heq [[]] ['b'] [] rfl rfl List.mem_cons_self

end Nominus

/-! ### Searching -/

section Search

variable {argv : List CText} {option : CText} {cl cl' : CommandLine}

theorem placeOf_eq_some {first count c : ℕ} (h : placeOf argv option first count = some c) :
    argv[c]? = some option := by
  simpa using List.find?_some h

theorem isSome_placeOf {first count c : ℕ} (hfirst : first ≤ c) (hlast : c < first + count)
    (hc : argv[c]? = some option) : (placeOf argv option first count).isSome = true := by
  rw [placeOf, List.find?_isSome]
  exact ⟨c, List.mem_range'_1.mpr ⟨hfirst, hlast⟩, decide_eq_true hc⟩

namespace CommandLine

/-- What has to be the case for a search to go all the way round: the cursor is not behind the
end, unless the option is not the last argument. -/
structure GoesRound (option : CText) (cl : CommandLine) : Prop where
  loop : cl.searchLoop = true
  name : cl.argv.head? ≠ some option
  cursor : cl.cursor < cl.argv.length ∨ cl.argv.getLast? ≠ some option

/-- A search finds an option where it is, and if it finds none there is none. -/
theorem search_cases (h : cl.GoesRound option) :
    (∃ c, cl.argv[c]? = some option ∧ cl.search option =
        (true, { cl.recordArgumentRequest option with cursor := c, searchFailed := false })) ∨
      (option ∉ cl.argv ∧ cl.search option =
        (false, { cl.recordArgumentRequest option with searchFailed := true })) := by
  rw [search]
  split
  · next c hc =>
      left
      refine ⟨c, ?_, rfl⟩
      rcases Option.or_eq_some_iff.mp hc with hc | ⟨-, hc⟩
      · exact placeOf_eq_some hc
      · rw [if_pos h.loop] at hc
        exact placeOf_eq_some hc
  · next hnone =>
      right
      refine ⟨fun hmem => ?_, rfl⟩
      obtain ⟨hfirst, hsecond⟩ := Option.or_eq_none_iff.mp hnone
      rw [if_pos h.loop] at hsecond
      obtain ⟨c, hlt, hget⟩ := List.getElem_of_mem hmem
      have hc : cl.argv[c]? = some option := by rw [List.getElem?_eq_getElem hlt, hget]
      have hpos : c ≠ 0 := by
        rintro rfl
        exact h.name (List.head?_eq_getElem?.trans hc)
      by_cases hcursor : cl.cursor ≤ c
      · have hsome : (placeOf cl.argv option cl.cursor (cl.argv.length - cl.cursor)).isSome :=
          isSome_placeOf hcursor (by omega) hc
        rw [hfirst] at hsome
        cases hsome
      · have hlast : cl.argv.length ≤ cl.cursor → c ≠ cl.argv.length - 1 := by
          rintro hle rfl
          rcases h.cursor with hlt' | hne
          · omega
          · exact hne (List.getLast?_eq_getElem?.trans hc)
        have hsome : (placeOf cl.argv option 1
            ((if cl.argv.length ≤ cl.cursor then cl.argv.length - 1 else cl.cursor) - 1)).isSome :=
          isSome_placeOf (by omega) (by split <;> omega) hc
        rw [hsecond] at hsome
        cases hsome

end CommandLine

end Search

/-! ### Runs of requests -/

/-- The options of a list that are recorded when they are searched for together. -/
def recorded (args : List CText) : List CText → List CText
  | [] => []
  | p :: opts => if p ∈ args then [p] else p :: opts

/-- An object of these arguments after some requests: `requested` is recorded, and what follows
the options in `taken` has been read. The cursor is behind the end only if one of these is the
last argument. -/
structure Reading (name : CText) (args taken requested : List CText) (cl : CommandLine) :
    Prop where
  argv : cl.argv = name :: args
  places : cl.object.idxNominus = nominusPlaces 1 args
  requested : cl.requested = requested
  loop : cl.searchLoop = true
  cursor : cl.cursor ≤ args.length ∨ ∃ option ∈ taken, (name :: args).getLast? = some option

/-- The cursor is at an option that has been found. -/
structure AtOption (args : List CText) (option : CText) (cl : CommandLine) : Prop where
  found : cl.searchFailed = false
  place : ∃ i, args[i]? = some option ∧ cl.cursor = i + 1

theorem AtOption.records {args : List CText} {option : CText} {cl : CommandLine}
    (h : AtOption args option cl) (opts : List CText) :
    AtOption args option (opts.foldl CommandLine.recordArgumentRequest cl) := by
  induction opts generalizing cl with
  | nil => exact h
  | cons opt opts ih => exact ih ⟨h.found, h.place⟩

section Reading

variable {name option : CText} {args taken requested opts : List CText} {cl : CommandLine}

/-- Nothing has been asked for of the object of plain arguments, but assignments count as if. -/
theorem reading_construct (d : Doubles) (h : ∀ arg ∈ args, IsPlainArgument arg)
    (hne : [] ∉ args) (name : CText) :
    ∃ o, Settles (fun n => construct d n name args) o ∧
      Reading name args [] (args.filter fun arg => (splitAssignment arg).isSome)
        (CommandLine.ofObject o) := by
  obtain ⟨o, hsettles, hargv, hidx, hrequested⟩ := construct_plain d h name
  have hkeep : args.filter (· ≠ []) = args :=
    List.filter_eq_self.mpr fun a ha => by simpa using fun heq : a = [] => hne (heq ▸ ha)
  rw [hkeep] at hargv
  exact ⟨o, hsettles, hargv, hidx, hrequested, rfl, .inl (Nat.zero_le _)⟩

namespace Reading

theorem length_argv (h : Reading name args taken requested cl) :
    cl.argv.length = args.length + 1 := by
  rw [h.argv, List.length_cons]

theorem goesRound (h : Reading name args taken requested cl) (hname : option ≠ name)
    (htaken : option ∉ taken) : cl.GoesRound option where
  loop := h.loop
  name := by
    rw [h.argv, List.head?_cons]
    exact fun heq => hname (Option.some.inj heq).symm
  cursor := by
    rcases h.cursor with hle | ⟨other, hother, hlast⟩
    · left
      rw [h.length_argv]
      exact Nat.lt_succ_of_le hle
    · right
      rw [h.argv, hlast]
      exact fun heq => htaken (Option.some.inj heq ▸ hother)

theorem mono (h : Reading name args taken requested cl) {taken' : List CText}
    (hsub : ∀ option ∈ taken, option ∈ taken') : Reading name args taken' requested cl :=
  { h with
    cursor := h.cursor.imp_right fun ⟨option, hoption, hlast⟩ =>
      ⟨option, hsub option hoption, hlast⟩ }

/-- A record leaves everything else. -/
theorem record (h : Reading name args taken requested cl) (opt : CText) :
    Reading name args taken (requested ++ [opt]) (cl.recordArgumentRequest opt) where
  argv := h.argv
  places := h.places
  requested := by
    rw [← h.requested]
    rfl
  loop := h.loop
  cursor := h.cursor

theorem records (h : Reading name args taken requested cl) (opts : List CText) :
    Reading name args taken (requested ++ opts)
      (opts.foldl CommandLine.recordArgumentRequest cl) := by
  induction opts generalizing requested cl with
  | nil =>
      rw [List.append_nil]
      exact h
  | cons opt opts ih =>
      have hrest := ih (h.record opt)
      rw [List.append_assoc] at hrest
      exact hrest

/-- One option is found if and only if it is there. -/
theorem search (h : Reading name args taken requested cl) (hname : option ≠ name)
    (htaken : option ∉ taken) :
    (cl.search option).1 = decide (option ∈ args) ∧
      (option ∈ args → AtOption args option (cl.search option).2) ∧
      Reading name args taken (requested ++ [option]) (cl.search option).2 := by
  have hrecord := h.record option
  rcases CommandLine.search_cases (h.goesRound hname htaken) with ⟨c, hc, hsearch⟩ | ⟨hnot, hsearch⟩
  · rw [h.argv] at hc
    cases c with
    | zero => exact absurd (Option.some.inj hc).symm hname
    | succ i =>
        have hi : args[i]? = some option := hc
        have hmem : option ∈ args := List.mem_of_getElem? hi
        have hlt : i < args.length := (List.getElem?_eq_some_iff.mp hi).1
        rw [hsearch]
        exact ⟨(decide_eq_true hmem).symm, fun _ => ⟨rfl, i, hi, rfl⟩,
          { hrecord with cursor := .inl hlt }⟩
  · have hnot' : option ∉ args := fun hmem => hnot (h.argv ▸ List.mem_cons_of_mem name hmem)
    rw [hsearch]
    exact ⟨(decide_eq_false hnot').symm, fun hmem => absurd hmem hnot', { hrecord with }⟩

/-- Of several options behind the first, the first one that is there is found, and all are
recorded. -/
theorem searchFrom (h : Reading name args taken requested cl)
    (hopts : ∀ option ∈ opts, option ≠ name ∧ option ∉ taken) :
    (CommandLine.searchFrom opts cl).1 = (opts.find? (· ∈ args)).isSome ∧
      (∀ option, opts.find? (· ∈ args) = some option →
        AtOption args option (CommandLine.searchFrom opts cl).2) ∧
      Reading name args taken (requested ++ opts) (CommandLine.searchFrom opts cl).2 := by
  induction opts generalizing requested cl with
  | nil =>
      rw [List.append_nil]
      exact ⟨rfl, nofun, h⟩
  | cons p opts ih =>
      obtain ⟨hname, htaken⟩ := hopts p List.mem_cons_self
      obtain ⟨hfound, hat, hreading⟩ := h.search hname htaken
      rw [CommandLine.searchFrom]
      by_cases hmem : p ∈ args
      · have hfirst : (p :: opts).find? (· ∈ args) = some p :=
          List.find?_cons_of_pos (decide_eq_true hmem)
        have hall := hreading.records opts
        rw [List.append_assoc] at hall
        rw [if_pos (hfound.trans (decide_eq_true hmem)), hfirst]
        refine ⟨rfl, ?_, hall⟩
        rintro option heq
        obtain rfl := Option.some.inj heq
        exact (hat hmem).records opts
      · have hrest : (p :: opts).find? (· ∈ args) = opts.find? (· ∈ args) :=
          List.find?_cons_of_neg (by simpa using hmem)
        obtain ⟨hfound', hat', hreading'⟩ :=
          ih hreading fun option hoption => hopts option (List.mem_cons_of_mem p hoption)
        rw [List.append_assoc] at hreading'
        rw [if_neg (by rw [hfound, decide_eq_false hmem]; exact Bool.false_ne_true), hrest]
        exact ⟨hfound', hat', hreading'⟩

/-- Of several options the first one that is there is found. -/
theorem searchAny (h : Reading name args taken requested cl)
    (hopts : ∀ option ∈ opts, option ≠ name ∧ option ∉ taken) :
    (cl.searchAny opts).1 = (opts.find? (· ∈ args)).isSome ∧
      (∀ option, opts.find? (· ∈ args) = some option →
        AtOption args option (cl.searchAny opts).2) ∧
      Reading name args taken (requested ++ recorded args opts) (cl.searchAny opts).2 := by
  cases opts with
  | nil =>
      rw [recorded, List.append_nil]
      exact ⟨rfl, nofun, h⟩
  | cons p opts =>
      obtain ⟨hname, htaken⟩ := hopts p List.mem_cons_self
      obtain ⟨hfound, hat, hreading⟩ := h.search hname htaken
      rw [CommandLine.searchAny, recorded]
      by_cases hmem : p ∈ args
      · have hfirst : (p :: opts).find? (· ∈ args) = some p :=
          List.find?_cons_of_pos (decide_eq_true hmem)
        rw [if_pos (hfound.trans (decide_eq_true hmem)), if_pos hmem, hfirst]
        refine ⟨rfl, ?_, hreading⟩
        rintro option heq
        obtain rfl := Option.some.inj heq
        exact hat hmem
      · have hrest : (p :: opts).find? (· ∈ args) = opts.find? (· ∈ args) :=
          List.find?_cons_of_neg (by simpa using hmem)
        obtain ⟨hfound', hat', hreading'⟩ := hreading.searchFrom
          fun option hoption => hopts option (List.mem_cons_of_mem p hoption)
        rw [List.append_assoc] at hreading'
        rw [if_neg (by rw [hfound, decide_eq_false hmem]; exact Bool.false_ne_true),
          if_neg hmem, hrest]
        exact ⟨hfound', hat', hreading'⟩

/-- What is read at an option is the argument behind it, or the default. -/
theorem next {T : Type} (h : Reading name args taken requested cl) (hne : [] ∉ args)
    (hat : AtOption args option cl) (convert : CText → T → T) (default : T) :
    ∃ i, args[i]? = some option ∧
      (cl.next convert default).1 = (args[i + 1]?.elim default fun arg => convert arg default) ∧
      Reading name args (option :: taken) (requested ++ args[i + 1]?.toList)
        (cl.next convert default).2 := by
  obtain ⟨i, hi, hcursor⟩ := hat.place
  refine ⟨i, hi, ?_⟩
  have hget : cl.argv[cl.cursor + 1]? = args[i + 1]? := by
    rw [h.argv, hcursor, List.getElem?_cons_succ]
  rw [CommandLine.next, hat.found, if_neg Bool.false_ne_true, hget]
  cases harg : args[i + 1]? with
  | none =>
      -- the option is the last argument
      have hlast : (name :: args).getLast? = some option := by
        have hlt := (List.getElem?_eq_some_iff.mp hi).1
        have hle := List.getElem?_eq_none_iff.mp harg
        rw [List.getLast?_eq_getElem?, List.length_cons, Nat.add_sub_cancel,
          show args.length = i + 1 by omega, List.getElem?_cons_succ, hi]
      refine ⟨rfl, ?_⟩
      rw [Option.toList_none, List.append_nil]
      exact { h with cursor := .inr ⟨option, List.mem_cons_self, hlast⟩ }
  | some arg =>
      have hmem : arg ∈ args := List.mem_of_getElem? harg
      have hlt : i + 1 < args.length := (List.getElem?_eq_some_iff.mp harg).1
      have hsome : arg ≠ [] := fun heq => hne (heq ▸ hmem)
      refine ⟨if_neg hsome, ?_⟩
      exact { h.record arg with cursor := .inl (by rw [hcursor]; exact hlt) }

/-- The arguments without a minus are recorded when they are taken. -/
theorem nominusVector (h : Reading name args taken requested cl) :
    ∃ cl', cl.nominusVector = some (args.filter isNominus, cl') ∧
      Reading name args taken (requested ++ args.filter isNominus) cl' := by
  have hread : (nominusPlaces 1 args).mapM (fun i => cl.argv[i]?) =
      some (args.filter isNominus) := by
    have hall := read_nominusPlaces [name] args []
    rw [List.append_nil] at hall
    rw [mapM_eq_some_iff, h.argv]
    exact hall
  refine ⟨_, ?_, h.records (args.filter isNominus)⟩
  rw [CommandLine.nominusVector, h.places, hread]
  rfl

theorem unidentifiedOptions (h : Reading name args taken requested cl) :
    cl.unidentifiedOptions = args.filter fun arg => arg ≠ [] && arg ∉ requested := by
  rw [CommandLine.unidentifiedOptions, h.argv, h.requested]
  rfl

end Reading

end Reading

end Grvy.GetPot
