import Grvy.History.ReportColumns

/-!
The column of comments in the report of a machine.

The room for the quotes is added once for each sample, not once for the column. A
comment is widened by its own quotes and by those of all samples that follow, so the
column is as wide as the longest quoted comment only if that one outgrows the others.
-/

namespace Grvy.History

open Grvy.Lib

variable {F : Type}

/-! ### Widths of strings -/

theorem intOfSize_eq {n : ℕ} (hn : n < 2 ^ 31) : intOfSize n = n := by
  have hlower : -(((2 ^ 32 : ℕ) : ℤ) / 2) ≤ n := by omega
  have hupper : (n : ℤ) < (((2 ^ 32 : ℕ) : ℤ) + 1) / 2 := by omega
  exact Int.bmod_eq_of_le hlower hupper

theorem sizeOfInt_eq {n : ℕ} (hn : n < 2 ^ 64) : sizeOfInt n = n := by
  rw [sizeOfInt]
  omega

@[simp] theorem strlen_append (a b : String) : strlen (a ++ b) = strlen a + strlen b :=
  String.utf8ByteSize_append

theorem strlen_blanks (n : ℕ) : strlen (String.ofList (List.replicate n ' ')) = n := by
  induction n with
  | zero => rfl
  | succ n ih =>
      have hsplit : String.ofList (List.replicate (n + 1) ' ') =
          " " ++ String.ofList (List.replicate n ' ') := by
        apply String.toList_injective
        simp [List.replicate_succ]
      have hone : strlen " " = 1 := rfl
      simp [hsplit, hone, ih, Nat.add_comm]

/-- A field is as wide as it is to be, or as what is printed in it. -/
@[simp] theorem strlen_printPadded (width : ℤ) (s : String) :
    strlen (printPadded width s) = max width.natAbs (strlen s) := by
  rw [printPadded]
  split <;>
  · rw [strlen_append, strlen_blanks]
    omega

/-- A quoted comment fills its field. -/
theorem strlen_commentField {width : ℕ} {comment : String} (hwidth : width < 2 ^ 31)
    (hseven : 7 ≤ width) (hroom : strlen comment + 2 ≤ width) :
    strlen (commentField width comment) = width := by
  have hquote : strlen "\"" = 1 := rfl
  have hfield (text : String) (htext : strlen text + 2 ≤ width) :
      strlen (printPadded (intOfSize (sizeOfInt ((width : ℤ) - strlen text - 1))) "\"" ++ text ++
        "\"") = width := by
    have hrest : (width : ℤ) - strlen text - 1 = ((width - strlen text - 1 : ℕ) : ℤ) := by omega
    rw [hrest, sizeOfInt_eq (by omega), intOfSize_eq (by omega), strlen_append, strlen_append,
      strlen_printPadded, hquote]
    omega
  rw [commentField]
  split
  · exact hfield comment hroom
  · exact hfield "N/A" (by have hna : strlen "N/A" = 3 := rfl; omega)

/-! ### The width of the column -/

/-- What the comments need if the quotes are added once for each sample. -/
def widened : List String → ℕ
  | [] => 0
  | comment :: comments =>
      max (strlen comment + 2 * (comments.length + 1)) (widened comments)

@[simp] theorem foldl_widenComment_none (comments : List String) :
    comments.foldl widenComment none = none := by
  induction comments with
  | nil => rfl
  | cons comment comments ih => exact ih

/-- The loop over the comments, from some width on. -/
theorem foldl_widenComment {comments : List String} (width : ℕ) (hwidth : width < 2 ^ 31)
    (hlen : ∀ comment ∈ comments, strlen comment < 2 ^ 31) :
    comments.foldl widenComment (some (width : ℤ)) =
      if max (width + 2 * comments.length) (widened comments) < 2 ^ 31 then
        some ((max (width + 2 * comments.length) (widened comments) : ℕ) : ℤ)
      else none := by
  induction comments generalizing width with
  | nil =>
      rw [List.length_nil, widened, if_pos (by omega)]
      simp
  | cons comment comments ih =>
      obtain ⟨hcomment, hrest⟩ := List.forall_mem_cons.mp hlen
      have htotal : max (max (strlen comment) width + 2 + 2 * comments.length)
          (widened comments) =
            max (width + 2 * (comment :: comments).length) (widened (comment :: comments)) := by
        rw [widened, List.length_cons]
        omega
      have hstep : widenComment (some (width : ℤ)) comment =
          int ((max (strlen comment) width + 2 : ℕ) : ℤ) := by
        have hcast : max (strlen comment : ℤ) width + 2 =
            ((max (strlen comment) width + 2 : ℕ) : ℤ) := by omega
        rw [widenComment, Option.bind_some, intOfSize_eq hcomment, hcast]
      rw [List.foldl_cons, hstep, int]
      by_cases hfit : max (strlen comment) width + 2 < 2 ^ 31
      · rw [if_pos (by omega), ih _ hfit hrest, htotal]
      · rw [if_neg (by omega), foldl_widenComment_none, if_neg]
        rw [← htotal]
        omega

/-- A width that has a value after some comments is one of an `int`. -/
theorem foldl_widenComment_lt {comments : List String} (hne : comments ≠ []) {start : Option ℤ}
    {width : ℤ} (h : comments.foldl widenComment start = some width) : width < 2 ^ 31 := by
  obtain ⟨init, last, rfl⟩ := (List.eq_nil_or_concat comments).resolve_left hne
  rw [List.concat_eq_append, List.foldl_append] at h
  obtain ⟨before, -, hlast⟩ := Option.bind_eq_some_iff.mp h
  obtain ⟨rfl, hbound⟩ := of_int hlast
  exact hbound

/-- The longest comment. -/
def longest : List String → ℕ
  | [] => 0
  | comment :: comments => max (strlen comment) (longest comments)

theorem strlen_le_longest {comments : List String} :
    ∀ comment ∈ comments, strlen comment ≤ longest comments := by
  induction comments with
  | nil => simp
  | cons comment comments ih =>
      rw [longest]
      refine List.forall_mem_cons.mpr ⟨le_max_left _ _, fun comment' hmem => ?_⟩
      exact (ih comment' hmem).trans (le_max_right _ _)

theorem longest_le_widened {comments : List String} (hne : comments ≠ []) :
    longest comments + 2 ≤ widened comments := by
  induction comments with
  | nil => exact absurd rfl hne
  | cons comment comments ih =>
      rw [longest, widened]
      cases comments with
      | nil =>
          rw [longest, widened, List.length_nil]
          omega
      | cons _ _ =>
          have hrest := ih (List.cons_ne_nil _ _)
          omega

theorem length_le_widened (comments : List String) : 2 * comments.length ≤ widened comments := by
  cases comments with
  | nil => exact Nat.le_refl _
  | cons comment comments =>
      rw [widened, List.length_cons]
      omega

/-- Each comment needs room for its own quotes and those of the comments behind it. -/
theorem widened_le_iff {comments : List String} {bound : ℕ} :
    widened comments ≤ bound ↔ ∀ i comment, comments[i]? = some comment →
      strlen comment + 2 * (comments.length - i) ≤ bound := by
  induction comments with
  | nil => simp [widened]
  | cons comment comments ih =>
      rw [widened, max_le_iff, ih, List.length_cons]
      constructor
      · rintro ⟨hfirst, hrest⟩ i comment' hcomment
        cases i with
        | zero =>
            obtain rfl := Option.some.inj hcomment
            omega
        | succ i =>
            have hroom := hrest i comment' hcomment
            omega
      · intro h
        refine ⟨?_, fun i comment' hcomment => ?_⟩
        · have hroom := h 0 comment rfl
          omega
        · have hroom := h (i + 1) comment' hcomment
          omega

/-! ### The column of the report -/

section Column

variable {data : List (Sample F)}

/-- The comments of the samples of a machine. -/
def comments (data : List (Sample F)) : List String := data.map Sample.userComment

/-- The width of the longest comment with its quotes, or of the title. -/
def quotedWidth (data : List (Sample F)) : ℕ := max 7 (longest (comments data) + 2)

/-- The field of the comment is that wide in all headers and rows. -/
structure CommentsAre (width : ℕ) (report : HostReport F) : Prop where
  headers : ∀ header ∈ report.headers, ∃ text, header.comment = some text ∧ strlen text = width
  lines : ∀ line ∈ report.lines, ∃ text, line.comment = some text ∧ strlen text = width

/-- Each comment, with two bytes for itself and for each sample behind it, fits into the
column of the longest one, and that is an `int`. -/
def Fits (data : List (Sample F)) : Prop :=
  longest (comments data) + 2 < 2 ^ 31 ∧
    ∀ i comment, (comments data)[i]? = some comment →
      strlen comment + 2 * (data.length - i) ≤ quotedWidth data

theorem fits_iff : Fits data ↔
    longest (comments data) + 2 < 2 ^ 31 ∧ widened (comments data) ≤ quotedWidth data := by
  rw [Fits, widened_le_iff, comments, List.length_map]

theorem comments_ne_nil (hne : data ≠ []) : comments data ≠ [] :=
  List.map_eq_nil_iff.not.mpr hne

variable [LT F] [DecidableLT F] [Top F] [Bot F] [Zero F] {options : PrintOptions}

theorem maxCommentWidth_foldl (hcomments : options.outputComments = true)
    (entries : List (Sample F × ℕ)) (acc : Accumulated F) :
    (entries.foldl (accumulate options) acc).maxCommentWidth =
      (entries.map fun entry => entry.1.userComment).foldl widenComment acc.maxCommentWidth := by
  induction entries generalizing acc with
  | nil => rfl
  | cons entry entries ih =>
      rw [List.foldl_cons, ih, List.map_cons, List.foldl_cons]
      change List.foldl widenComment (if options.outputComments = true then _ else _) _ = _
      rw [if_pos hcomments]

theorem maxCommentWidth_accumulateAll (hcomments : options.outputComments = true)
    (data : List (Sample F)) :
    (accumulateAll options data).maxCommentWidth =
      (comments data).foldl widenComment (some 0) := by
  have hmap : (data.zipIdx.map fun entry => entry.1.userComment) = comments data := by
    rw [comments]
    conv_rhs => rw [← List.zipIdx_map_fst 0 data, List.map_map]
    rfl
  rw [accumulateAll, maxCommentWidth_foldl hcomments, hmap]
  rfl

/-- If all comments fit, the column is as wide as the longest one. -/
theorem maxCommentWidth_of_fits (hcomments : options.outputComments = true) (hne : data ≠ [])
    (hfits : Fits data) :
    (accumulateAll options data).maxCommentWidth.map (max 7) = some (quotedWidth data : ℤ) := by
  obtain ⟨hint, hwidened⟩ := fits_iff.mp hfits
  have hlow := longest_le_widened (comments_ne_nil hne)
  have hlength := length_le_widened (comments data)
  have hlen : ∀ comment ∈ comments data, strlen comment < 2 ^ 31 := by
    intro comment hcomment
    have hlongest := strlen_le_longest comment hcomment
    omega
  have hquoted : quotedWidth data = max 7 (longest (comments data) + 2) := rfl
  have hloop := foldl_widenComment 0 (by omega) hlen
  rw [if_pos (by omega)] at hloop
  rw [maxCommentWidth_accumulateAll hcomments]
  change ((comments data).foldl widenComment (some ((0 : ℕ) : ℤ))).map (max 7) = _
  rw [hloop, Option.map_some]
  congr 1
  omega

/-- Conversely, a column that is as wide as the longest comment has room for all. -/
theorem fits_of_maxCommentWidth (hcomments : options.outputComments = true) (hne : data ≠ [])
    (h : (accumulateAll options data).maxCommentWidth.map (max 7) =
      some (quotedWidth data : ℤ)) : Fits data := by
  obtain ⟨width, hloop, hwidth⟩ := Option.map_eq_some_iff.mp h
  rw [maxCommentWidth_accumulateAll hcomments] at hloop
  have hbound := foldl_widenComment_lt (comments_ne_nil hne) hloop
  have hquoted : quotedWidth data = max 7 (longest (comments data) + 2) := rfl
  have hlen : ∀ comment ∈ comments data, strlen comment < 2 ^ 31 := by
    intro comment hcomment
    have hlongest := strlen_le_longest comment hcomment
    omega
  have hclosed := foldl_widenComment 0 (by omega) hlen
  change (comments data).foldl widenComment (some 0) = _ at hclosed
  rw [hloop] at hclosed
  rw [fits_iff]
  split at hclosed
  · have hvalue := Option.some.inj hclosed
    omega
  · cases hclosed

theorem commentsAre_of_fits (hdump : options.dumpFiles = true)
    (hcomments : options.outputComments = true) (hne : data ≠ []) (hfits : Fits data) :
    CommentsAre (quotedWidth data) (printHost options data) := by
  have hwidth := maxCommentWidth_of_fits hcomments hne hfits
  have hquoted : quotedWidth data = max 7 (longest (comments data) + 2) := rfl
  have hint := hfits.1
  refine ⟨fun header hheader => ?_, fun line hline => ?_⟩
  · rw [headers_printHost, if_pos hdump] at hheader
    obtain ⟨ename, -, rfl⟩ := List.mem_map.mp hheader
    rw [headerOf, if_pos hcomments, hwidth]
    have htitle : strlen "Comment" = 7 := rfl
    refine ⟨_, rfl, ?_⟩
    rw [strlen_printPadded, htitle]
    omega
  · rw [lines_printHost] at hline
    split at hline
    · obtain ⟨row, hrow, rfl⟩ := List.mem_map.mp hline
      have hsample := mem_rows hrow
      have hexperiments : experiments data ≠ [] :=
        List.ne_nil_of_mem (mem_experiments.mpr ⟨row.sample, hsample, rfl⟩)
      have hrows := (printed_experiments hdump data).commentWidth hexperiments hcomments
      rw [Printing.start, hwidth] at hrows
      rw [lineOf, if_pos hcomments, hrows]
      refine ⟨_, rfl, strlen_commentField (by omega) (by omega) ?_⟩
      have hmem : row.sample.userComment ∈ comments data := List.mem_map_of_mem hsample
      have hlongest := strlen_le_longest _ hmem
      omega
    · cases hline

theorem fits_of_commentsAre (hdump : options.dumpFiles = true)
    (hcomments : options.outputComments = true) (hne : data ≠ [])
    (h : CommentsAre (quotedWidth data) (printHost options data)) : Fits data := by
  obtain ⟨sample, hsample⟩ := List.exists_mem_of_ne_nil data hne
  have hmem : sample.experiment ∈ experiments data :=
    mem_experiments.mpr ⟨sample, hsample, rfl⟩
  have hheaders := h.headers
  rw [headers_printHost, if_pos hdump] at hheaders
  obtain ⟨text, htext, hlen⟩ := hheaders _ (List.mem_map_of_mem hmem)
  rw [headerOf, if_pos hcomments] at htext
  obtain ⟨width, hwidth, rfl⟩ := Option.map_eq_some_iff.mp htext
  obtain ⟨raw, -, hseven⟩ := Option.map_eq_some_iff.mp hwidth
  have htitle : strlen "Comment" = 7 := rfl
  rw [strlen_printPadded, htitle] at hlen
  apply fits_of_maxCommentWidth hcomments hne
  rw [hwidth]
  congr 1
  omega

/-- **Comments.** The column of comments is as wide as the longest quoted comment if and
only if all comments fit in spite of the quotes that are added for each sample. -/
theorem comment_column_iff (options : PrintOptions) (hdump : options.dumpFiles = true)
    (hcomments : options.outputComments = true) (hne : data ≠ []) :
    CommentsAre (quotedWidth data) (printHost options data) ↔ Fits data :=
  ⟨fits_of_commentsAre hdump hcomments hne, commentsAre_of_fits hdump hcomments hne⟩

/-- A short comment before a long one. -/
def growing : List (Sample (WithBot (WithTop ℕ))) :=
  [exampleSample "ring" "warm" 3 [], exampleSample "ring" "production" 4 []]

/-- Two comments of the same length. -/
def level : List (Sample (WithBot (WithTop ℕ))) :=
  [exampleSample "ring" "production" 3 [], exampleSample "ring" "production" 4 []]

theorem column_of_growing : CommentsAre 12 (printHost printAll growing) := by
  have hwidth : quotedWidth growing = 12 := by decide +kernel
  have hfits : Fits growing := by
    rw [fits_iff, hwidth]
    decide +kernel
  have hne : growing ≠ [] := List.cons_ne_nil _ _
  have hcolumn := (comment_column_iff printAll rfl rfl hne).mpr hfits
  rw [hwidth] at hcolumn
  exact hcolumn

/-- The column of two comments of ten bytes is not twelve bytes wide. -/
theorem column_of_level :
    quotedWidth level = 12 ∧ ¬CommentsAre (quotedWidth level) (printHost printAll level) := by
  have hwidth : quotedWidth level = 12 := by decide +kernel
  refine ⟨hwidth, fun hcolumn => ?_⟩
  have hne : level ≠ [] := List.cons_ne_nil _ _
  have hfits := fits_iff.mp (fits_of_commentsAre rfl rfl hne hcolumn)
  rw [hwidth] at hfits
  revert hfits
  decide +kernel

end Column

end Grvy.History
