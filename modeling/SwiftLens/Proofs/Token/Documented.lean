import Mathlib
import SwiftLens.Proofs.Text.LineFeeds
import SwiftLens.Token.Documented

/-!
# Comments and the identifiers they document

`IsComment` is the grammar of documentation comments and `Scans` the reading of a text from left to right
that takes each comment where it begins and goes on after it. The positions that `commentEnds` lists are
the ends of the comments so found (`scans_commentEnds`), and each is a position just after a line feed. So
the bytes that are counted on from one end to the next are the bytes of the text up to each
(`limits_eq_sizes`).

`offsets_eq` takes the search for identifiers apart. One walk through the sorted offsets serves all
comments, because the comments end one after the other; so what each comment gets depends on no other,
and is the least offset from the end of the comment on.
-/

namespace SwiftLens.Documented

open CodeUnit

/-! ### Comments -/

/-- A documentation comment: three slashes and the rest of their line, or the end of a block comment at
the end of a line. Either has its line feed. -/
inductive IsComment : Text → Prop where
  | line (words : Text) (h : ∀ c ∈ words, isLineEnd c = false) :
      IsComment (slash :: slash :: slash :: (words ++ [lineFeed]))
  | block : IsComment [asterisk, slash, lineFeed]

/-- A comment stands at the front of a text. -/
def BeginsComment (t : Text) : Prop := ∃ comment, IsComment comment ∧ comment <+: t

/-- A text is scanned from left to right, when `position` units have gone before: where a comment begins
it is taken and its end noted, and where none begins one unit is left out. -/
inductive Scans : Nat → Text → List Nat → Prop where
  | done (position : Nat) : Scans position [] []
  | skip {position : Nat} {c : CodeUnit} {rest : Text} {ends : List Nat} (h : ¬BeginsComment (c :: rest))
      (hrest : Scans (position + 1) rest ends) : Scans position (c :: rest) ends
  | found {position : Nat} {comment rest : Text} {ends : List Nat} (h : IsComment comment)
      (hrest : Scans (position + comment.length) rest ends) :
      Scans position (comment ++ rest) ((position + comment.length) :: ends)

/-- A line is divided at its first unit that ends a line. -/
theorem dropWhile_words {words : Text} (h : ∀ c ∈ words, isLineEnd c = false) (rest : Text) :
    (words ++ lineFeed :: rest).dropWhile (fun c => !isLineEnd c) = lineFeed :: rest ∧
      (words ++ lineFeed :: rest).takeWhile (fun c => !isLineEnd c) = words := by
  induction words with
  | nil => exact ⟨rfl, rfl⟩
  | cons c words ih =>
    have hc : isLineEnd c = false := h c List.mem_cons_self
    obtain ⟨hdrop, htake⟩ := ih fun d hd => h d (List.mem_cons_of_mem c hd)
    simp [hc, hdrop, htake]

/-- Three slashes begin a comment if the rest of their line ends in a line feed. -/
theorem commentLength?_slashes (rest : Text) :
    commentLength? (slash :: slash :: slash :: rest) =
      match rest.dropWhile fun c => !isLineEnd c with
      | lineFeed :: _ => some (3 + (rest.takeWhile fun c => !isLineEnd c).length + 1)
      | _ => none := rfl

/-- A comment at the front of a text is found with its length. -/
theorem commentLength?_of_isComment {comment : Text} (h : IsComment comment) (rest : Text) :
    commentLength? (comment ++ rest) = some comment.length := by
  cases h with
  | line words h =>
    have hwords : (words ++ [lineFeed]) ++ rest = words ++ lineFeed :: rest := by simp
    obtain ⟨hdrop, htake⟩ := dropWhile_words h rest
    show commentLength? (slash :: slash :: slash :: ((words ++ [lineFeed]) ++ rest)) = _
    rw [commentLength?_slashes, hwords, hdrop, htake]
    show some (3 + words.length + 1) = some ((words ++ [lineFeed]).length + 3)
    rw [List.length_append, List.length_singleton]
    congr 1
    omega
  | block => rfl

/-- What is found at the front of a text is a comment. -/
theorem exists_of_commentLength? {t : Text} {n : Nat} (h : commentLength? t = some n) :
    ∃ comment rest, IsComment comment ∧ t = comment ++ rest ∧ comment.length = n := by
  suffices hcomment : ∃ comment rest, IsComment comment ∧ t = comment ++ rest by
    obtain ⟨comment, rest, hcomment, rfl⟩ := hcomment
    rw [commentLength?_of_isComment hcomment] at h
    exact ⟨comment, rest, hcomment, rfl, Option.some.inj h⟩
  revert h
  fun_cases commentLength? t with
  | case1 rest tail hdrop =>
    intro _
    have hwords : ∀ c ∈ rest.takeWhile fun c => !isLineEnd c, isLineEnd c = false := by
      intro c hc
      simpa using List.mem_takeWhile_imp hc
    have hrest : (rest.takeWhile fun c => !isLineEnd c) ++ ([lineFeed] ++ tail) = rest := by
      have hparts := List.takeWhile_append_dropWhile (p := fun c => !isLineEnd c) (l := rest)
      rwa [hdrop] at hparts
    refine ⟨_, tail, .line _ hwords, ?_⟩
    show slash :: slash :: slash :: rest = slash :: slash :: slash :: (_ ++ [lineFeed] ++ tail)
    rw [List.append_assoc, hrest]
  | case2 rest hdrop =>
    intro h
    cases h
  | case3 rest =>
    intro _
    exact ⟨_, rest, .block, rfl⟩
  | case4 t hline hblock =>
    intro h
    cases h

/-- A comment stands at the front of a text if one is found there. -/
theorem beginsComment_iff (t : Text) : BeginsComment t ↔ (commentLength? t).isSome = true := by
  constructor
  · rintro ⟨comment, hcomment, rest, rfl⟩
    rw [commentLength?_of_isComment hcomment]
    rfl
  · intro h
    obtain ⟨n, hn⟩ := Option.isSome_iff_exists.mp h
    obtain ⟨comment, rest, hcomment, rfl, -⟩ := exists_of_commentLength? hn
    exact ⟨comment, hcomment, List.prefix_append comment rest⟩

/-! ### Scanning -/

/-- The units of a comment that has been found are passed over. -/
theorem commentEnds_covered (position covered : Nat) (t : Text) :
    commentEnds position covered t = commentEnds (position + min covered t.length) 0 (t.drop covered) := by
  induction t generalizing position covered with
  | nil => cases covered <;> simp [commentEnds]
  | cons c rest ih =>
    cases covered with
    | zero => simp
    | succ covered =>
      rw [commentEnds, ih, List.drop_succ_cons, List.length_cons, Nat.succ_min_succ]
      congr 1
      omega

/-- A comment is taken and its end noted. -/
theorem commentEnds_comment {comment : Text} (h : IsComment comment) (position : Nat) (rest : Text) :
    commentEnds position 0 (comment ++ rest) =
      (position + comment.length) :: commentEnds (position + comment.length) 0 rest := by
  have hlength := commentLength?_of_isComment h rest
  cases comment with
  | nil => cases h
  | cons c comment =>
    rw [List.cons_append] at hlength ⊢
    rw [commentEnds, hlength]
    show _ :: commentEnds (position + 1) comment.length (comment ++ rest) = _
    rw [commentEnds_covered, List.drop_left, List.length_append, Nat.min_eq_left (Nat.le_add_right _ _),
      List.length_cons, Nat.add_assoc, Nat.add_comm 1]

/-- A comment is not empty. -/
theorem IsComment.length_pos {comment : Text} (h : IsComment comment) : 0 < comment.length := by
  cases h <;> exact Nat.succ_pos _

/-- Where no comment begins one unit is left out. -/
theorem commentEnds_skip {c : CodeUnit} {rest : Text} (h : ¬BeginsComment (c :: rest)) (position : Nat) :
    commentEnds position 0 (c :: rest) = commentEnds (position + 1) 0 rest := by
  rw [beginsComment_iff, Bool.not_eq_true, Option.isSome_eq_false_iff, Option.isNone_iff_eq_none] at h
  rw [commentEnds, h]

/-- What `commentEnds` lists are the ends of the comments found from left to right. -/
theorem scans_commentEnds (position : Nat) (t : Text) : Scans position t (commentEnds position 0 t) := by
  induction h : t.length using Nat.strong_induction_on generalizing position t with
  | _ length ih =>
    by_cases hbegins : BeginsComment t
    · obtain ⟨comment, hcomment, rest, rfl⟩ := hbegins
      have hpos := hcomment.length_pos
      rw [List.length_append] at h
      rw [commentEnds_comment hcomment]
      exact .found hcomment (ih rest.length (by omega) _ rest rfl)
    · cases t with
      | nil => exact .done position
      | cons c rest =>
        rw [List.length_cons] at h
        rw [commentEnds_skip hbegins]
        exact .skip hbegins (ih rest.length (by omega) _ rest rfl)

/-- A text has one scan only. -/
theorem Scans.eq_commentEnds {position : Nat} {t : Text} {ends : List Nat} (h : Scans position t ends) :
    ends = commentEnds position 0 t := by
  induction h with
  | done position => rfl
  | skip h hrest ih => rw [commentEnds_skip h, ih]
  | found h hrest ih => rw [commentEnds_comment h, ih]

/-- Each comment ends just after a line feed. -/
theorem Scans.exists_split {position : Nat} {t : Text} {ends : List Nat} (h : Scans position t ends) :
    ∀ e ∈ ends, ∃ before after, t = before ++ lineFeed :: after ∧ e = position + before.length + 1 := by
  induction h with
  | done position => simp
  | @skip position c rest ends h hrest ih =>
    intro e he
    obtain ⟨before, after, rfl, rfl⟩ := ih e he
    refine ⟨c :: before, after, rfl, ?_⟩
    rw [List.length_cons]
    omega
  | @found position comment rest ends h hrest ih =>
    have hcomment : ∃ words, comment = words ++ [lineFeed] := by
      cases h with
      | line words => exact ⟨slash :: slash :: slash :: words, rfl⟩
      | block => exact ⟨[asterisk, slash], rfl⟩
    obtain ⟨words, rfl⟩ := hcomment
    intro e he
    rcases List.mem_cons.mp he with rfl | he
    · refine ⟨words, rest, by simp, ?_⟩
      simp
      omega
    · obtain ⟨before, after, rfl, rfl⟩ := ih e he
      refine ⟨words ++ [lineFeed] ++ before, after, by simp, ?_⟩
      simp only [List.length_append, List.length_singleton]
      omega

/-- An end that is noted comes after the position where the scan begins. -/
theorem Scans.lt_of_mem {position : Nat} {t : Text} {ends : List Nat} (h : Scans position t ends) {e : Nat}
    (he : e ∈ ends) : position < e := by
  obtain ⟨before, -, -, rfl⟩ := h.exists_split e he
  omega

/-- Ends are noted from left to right. -/
theorem Scans.pairwise {position : Nat} {t : Text} {ends : List Nat} (h : Scans position t ends) :
    ends.Pairwise (· < ·) := by
  induction h with
  | done => exact .nil
  | skip h hrest ih => exact ih
  | found h hrest ih => exact .cons (fun e he => hrest.lt_of_mem he) ih

/-! ### Identifiers -/

/-- The least of the numbers that are not below a limit. -/
def leastFrom (limit : Nat) (numbers : List Int) : Option Int :=
  (numbers.filter fun n => (limit : Int) ≤ n).min?

/-- The least number from a limit on is there, is not below it, and has none before it that is not. -/
theorem leastFrom_eq_some_iff {limit : Nat} {numbers : List Int} {n : Int} :
    leastFrom limit numbers = some n ↔
      n ∈ numbers ∧ (limit : Int) ≤ n ∧ ∀ m ∈ numbers, (limit : Int) ≤ m → n ≤ m := by
  rw [leastFrom, List.min?_eq_some_iff]
  simp [and_assoc]

/-- The least number from a limit on does not depend on the order of the numbers. -/
theorem leastFrom_perm {numbers numbers' : List Int} (h : numbers.Perm numbers') (limit : Nat) :
    leastFrom limit numbers = leastFrom limit numbers' := by
  apply Option.ext
  intro n
  rw [leastFrom_eq_some_iff, leastFrom_eq_some_iff]
  simp only [h.mem_iff]

/-- In ascending numbers those below a limit come first. -/
theorem dropWhile_eq_filter {numbers : List Int} (h : numbers.Pairwise (· ≤ ·)) (limit : Nat) :
    (numbers.dropWhile fun n => decide (n < (limit : Int))) = numbers.filter fun n => (limit : Int) ≤ n := by
  induction h with
  | nil => rfl
  | @cons n rest hle h ih =>
    by_cases hn : n < (limit : Int)
    · simp [hn, ih]
    · have hrest : ∀ m ∈ rest, (limit : Int) ≤ m := fun m hm => by have := hle m hm; omega
      have hlimit : (limit : Int) ≤ n := by omega
      simpa [hn, hlimit] using (List.filter_eq_self.mpr (by simpa using hrest)).symm

/-- Numbers below a limit do not matter to a later one. -/
theorem leastFrom_filter {limit later : Nat} (h : limit ≤ later) (numbers : List Int) :
    leastFrom later (numbers.filter fun n => (limit : Int) ≤ n) = leastFrom later numbers := by
  rw [leastFrom, leastFrom, List.filter_filter]
  congr 2
  funext n
  simp
  omega

/-- In ordered numbers, one walk finds the least from each limit on. -/
theorem firstFrom_eq_filterMap {limits : List Nat} (hlimits : limits.Pairwise (· ≤ ·)) {numbers : List Int}
    (hnumbers : numbers.Pairwise (· ≤ ·)) :
    firstFrom (fun o limit => decide (o < (limit : Int))) limits numbers =
      limits.filterMap fun limit => leastFrom limit numbers := by
  induction hlimits generalizing numbers with
  | nil => rfl
  | @cons limit limits hle hlimits ih =>
    -- the later limits find in all numbers what they find in those that are left
    have hlater : limits.filterMap (fun later => leastFrom later numbers) =
        limits.filterMap fun later => leastFrom later (numbers.filter fun n => (limit : Int) ≤ n) :=
      List.filterMap_congr fun later hmem => (leastFrom_filter (hle later hmem) numbers).symm
    have hleft := hnumbers.filter fun n => decide ((limit : Int) ≤ n)
    rw [firstFrom, dropWhile_eq_filter hnumbers, List.filterMap_cons, hlater, ← ih hleft, leastFrom]
    generalize numbers.filter (fun n => decide ((limit : Int) ≤ n)) = left at hleft
    cases hleft with
    | nil => rw [ih .nil]; simp [leastFrom]
    | cons hoffset hrest =>
      rw [List.min?_eq_head?]
      · rfl
      · exact (List.pairwise_cons.mpr ⟨hoffset, hrest⟩).imp fun h => min_eq_left h

/-- The units of a text up to a line feed and some more. -/
theorem take_past_lineFeed (before after : Text) (n : Nat) :
    (before ++ lineFeed :: after).take (before.length + 1 + n) = before ++ lineFeed :: after.take n := by
  rw [Nat.add_assoc, List.take_length_add_append, Nat.add_comm 1, List.take_succ_cons]

/-- What goes on after a line feed takes no bytes away. -/
theorem size_take_past_lineFeed (before after : Text) (n : Nat) :
    Utf8.size ((before ++ lineFeed :: after).take (before.length + 1)) ≤
      Utf8.size ((before ++ lineFeed :: after).take (before.length + 1 + n)) := by
  have htake := take_past_lineFeed before after
  rw [htake n, ← Nat.add_zero (before.length + 1), htake 0, List.take_zero, Utf8.size_append_lineFeed,
    Utf8.size_append_lineFeed]
  exact Nat.add_le_add_left (Nat.add_le_add_right (Nat.zero_le _) 1) _

/-- A position at the beginning of a text or just after a line feed of it. -/
def BeginsLine (source : Text) (position : Nat) : Prop :=
  position = 0 ∨ ∃ before after, source = before ++ lineFeed :: after ∧ position = before.length + 1

/-- The bytes of a text are those up to the beginning of a line and those from there on: no character is
cut in two there. -/
theorem BeginsLine.size_take {source : Text} {position : Nat} (h : BeginsLine source position) {e : Nat}
    (hle : position ≤ e) :
    Utf8.size (source.take position) + Utf8.size ((source.take e).drop position) =
      Utf8.size (source.take e) := by
  rcases h with rfl | ⟨before, after, rfl, rfl⟩
  · rw [List.take_zero, List.drop_zero]
    exact Nat.zero_add _
  · obtain ⟨n, rfl⟩ := Nat.exists_eq_add_of_le hle
    have hfront := take_past_lineFeed before after 0
    have hdrop : (before ++ lineFeed :: after.take n).drop (before.length + 1) = after.take n := by simp
    rw [Nat.add_zero, List.take_zero] at hfront
    rw [hfront, take_past_lineFeed, hdrop, Utf8.size_append_lineFeed, Utf8.size_append_lineFeed,
      Nat.add_assoc]
    have hempty : Utf8.size [] = 0 := rfl
    omega

/-- To count bytes on from slice to slice gives the bytes up to each position, when every slice ends a line. -/
theorem bytePositions_eq_map {source : Text} {previous : Nat} {ends : List Nat}
    (hprevious : BeginsLine source previous) (hends : ∀ e ∈ ends, BeginsLine source e)
    (hascending : (previous :: ends).Pairwise (· < ·)) :
    bytePositions source previous (Utf8.size (source.take previous)) ends =
      ends.map fun e => Utf8.size (source.take e) := by
  induction ends generalizing previous with
  | nil => rfl
  | cons e rest ih =>
    obtain ⟨hlt, hrest⟩ := List.pairwise_cons.mp hascending
    have hsize := hprevious.size_take (hlt e List.mem_cons_self).le
    rw [bytePositions, hsize, List.map_cons,
      ih (hends e List.mem_cons_self) (fun e' he' => hends e' (List.mem_cons_of_mem e he')) hrest]

/-- The ends of the comments in bytes: each is the size of the text up to it. -/
theorem limits_eq_sizes (source : Text) :
    limits source = (commentEnds 0 0 source).map fun e => Utf8.size (source.take e) := by
  have hscans := scans_commentEnds 0 source
  have hends : ∀ e ∈ commentEnds 0 0 source, BeginsLine source e := by
    intro e he
    obtain ⟨before, after, htext, hposition⟩ := hscans.exists_split e he
    exact .inr ⟨before, after, htext, by rw [hposition, Nat.zero_add]⟩
  exact bytePositions_eq_map (.inl rfl) hends (.cons (fun e he => hscans.lt_of_mem he) hscans.pairwise)

/-- The ends of the comments in bytes do not decrease. -/
theorem pairwise_limits (source : Text) : (limits source).Pairwise (· ≤ ·) := by
  have hscans := scans_commentEnds 0 source
  rw [limits_eq_sizes, List.pairwise_map]
  refine hscans.pairwise.imp_of_mem fun {e later} he _ hlt => ?_
  obtain ⟨before, after, rfl, rfl⟩ := hscans.exists_split e he
  obtain ⟨n, rfl⟩ := Nat.exists_eq_add_of_lt hlt
  rw [Nat.zero_add, Nat.add_assoc _ n]
  exact size_take_past_lineFeed before after (n + 1)

/-- Sorted or not, the numbers give the same least ones. -/
theorem firstFrom_mergeSort {limits : List Nat} (h : limits.Pairwise (· ≤ ·)) (numbers : List Int) :
    firstFrom (fun o limit => decide (o < (limit : Int))) limits
        (numbers.mergeSort fun a b => decide (a ≤ b)) =
      limits.filterMap fun limit => leastFrom limit numbers := by
  have hsorted := @List.pairwise_mergeSort Int (fun a b => decide (a ≤ b))
    (fun a b c hab hbc => by simp only [decide_eq_true_eq] at *; omega)
    (fun a b => by simp only [Bool.or_eq_true, decide_eq_true_eq]; omega) numbers
  simp only [decide_eq_true_eq] at hsorted
  rw [firstFrom_eq_filterMap h hsorted]
  exact List.filterMap_congr fun limit _ => leastFrom_perm (List.mergeSort_perm numbers _) limit

/-- The offsets of documented identifiers: for each comment in turn the least offset from its end on, if
there is one. -/
theorem offsets_eq {source : Text} {ends : List Nat} (h : Scans 0 source ends) (identifiers : List Int) :
    offsets source identifiers =
      ends.filterMap fun e => leastFrom (Utf8.size (source.take e)) identifiers := by
  rw [offsets, firstFrom_mergeSort (pairwise_limits source), limits_eq_sizes, List.filterMap_map,
    h.eq_commentEnds]
  rfl

end SwiftLens.Documented
