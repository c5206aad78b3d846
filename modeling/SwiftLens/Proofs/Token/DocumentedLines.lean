import SwiftLens.Proofs.Number.Whole
import SwiftLens.Proofs.Token.Documented

/-!
# Documented tokens line by line

`offsets_line_by_line` says what the documented tokens of a text are without a scan and without a sweep.
Each line that ends with a line feed is looked at by itself: `Documents` tells whether it does, and the least
identifier from the end of the line on is taken.

That comments are found from left to right and do not overlap makes no difference, because a comment ends
with its line. So a line has at most one, and has one exactly when it documents (`commentEnds_line`).
-/

namespace SwiftLens.Documented

open CodeUnit

/-! ### Lines -/

/-- The line that ends at a position: what stands before it, back to the line feed before. -/
def lineAt (source : Text) (position : Nat) : Text :=
  (source.take position).rtakeWhile fun c => c != lineFeed

/-- A line documents what comes after it: it ends in `*/`, or somewhere in it begins `///` and from there
on it has no carriage return and neither of the separators U+2028 and U+2029. -/
def Documents (line : Text) : Prop :=
  [asterisk, slash] <:+ line ∨
    ∃ rest ∈ line.tails, [slash, slash, slash] <+: rest ∧
      ∀ c ∈ rest, c ≠ carriageReturn ∧ c ≠ 0x2028 ∧ c ≠ 0x2029

-- the units are gone through in the line, not in the type of all units
instance : DecidablePred Documents := fun line =>
  letI (rest : Text) : Decidable (∀ c ∈ rest, c ≠ carriageReturn ∧ c ≠ 0x2028 ∧ c ≠ 0x2029) :=
    List.decidableBAll _ rest
  inferInstanceAs (Decidable (_ ∨ ∃ rest ∈ line.tails, _))

/-- The line that ends at a position, when what stands before it is given line by line. -/
theorem lineAt_of_line {line : Text} (h : lineFeed ∉ line) {before : Text}
    (hbefore : before = [] ∨ ∃ front, before = front ++ [lineFeed]) (rest : Text) :
    lineAt (before ++ (line ++ rest)) (before.length + line.length) = line := by
  have htake : (before ++ (line ++ rest)).take (before.length + line.length) = before ++ line := by
    rw [← List.append_assoc, ← List.length_append, List.take_left]
  have hline : ∀ c ∈ line.reverse, (c != lineFeed) = true := by
    intro c hc
    rw [bne_iff_ne]
    rintro rfl
    exact h (List.mem_reverse.mp hc)
  rw [lineAt, htake, List.rtakeWhile, List.reverse_append, List.takeWhile_append_of_pos hline]
  obtain rfl | ⟨front, rfl⟩ := hbefore <;> simp

/-! ### The comment of a line -/

/-- The units that end no line. -/
theorem isLineEnd_eq_false_iff (c : CodeUnit) :
    isLineEnd c = false ↔ c ≠ lineFeed ∧ c ≠ carriageReturn ∧ c ≠ 0x2028 ∧ c ≠ 0x2029 := by
  simp [isLineEnd, and_assoc]

/-- Which lines are comments from their beginning on. -/
theorem isComment_iff {line : Text} (h : lineFeed ∉ line) :
    IsComment (line ++ [lineFeed]) ↔
      line = [asterisk, slash] ∨
        [slash, slash, slash] <+: line ∧ ∀ c ∈ line, c ≠ carriageReturn ∧ c ≠ 0x2028 ∧ c ≠ 0x2029 := by
  constructor
  · intro hcomment
    generalize htext : line ++ [lineFeed] = text at hcomment
    cases hcomment with
    | line words hwords =>
      have hline : line ++ [lineFeed] = slash :: slash :: slash :: words ++ [lineFeed] := htext
      obtain rfl := List.append_cancel_right hline
      refine .inr ⟨List.prefix_append [slash, slash, slash] words, ?_⟩
      rintro c (_ | ⟨_, _ | ⟨_, _ | ⟨_, hc⟩⟩⟩)
      · decide
      · decide
      · decide
      · exact ((isLineEnd_eq_false_iff c).mp (hwords c hc)).2
    | block =>
      have hline : line ++ [lineFeed] = [asterisk, slash] ++ [lineFeed] := htext
      exact .inl (List.append_cancel_right hline)
  · rintro (rfl | ⟨⟨words, rfl⟩, hunits⟩)
    · exact .block
    · refine .line words fun c hc => (isLineEnd_eq_false_iff c).mpr ⟨?_, ?_⟩
      · rintro rfl
        exact h (List.mem_append_right _ hc)
      · exact hunits c (List.mem_append_right _ hc)

/-- A comment that begins with a line ends with it. -/
theorem beginsComment_line {line : Text} (h : lineFeed ∉ line) (rest : Text) :
    BeginsComment (line ++ lineFeed :: rest) ↔ IsComment (line ++ [lineFeed]) := by
  constructor
  · rintro ⟨comment, hcomment, tail, htail⟩
    obtain ⟨words, hwords, rfl⟩ : ∃ words, lineFeed ∉ words ∧ comment = words ++ [lineFeed] := by
      cases hcomment with
      | line words hwords =>
        refine ⟨slash :: slash :: slash :: words, ?_, rfl⟩
        rintro (_ | ⟨_, _ | ⟨_, _ | ⟨_, hc⟩⟩⟩)
        exact ((isLineEnd_eq_false_iff _).mp (hwords _ hc)).1 rfl
      | block => exact ⟨[asterisk, slash], by decide, rfl⟩
    rw [List.append_assoc, List.singleton_append] at htail
    -- the comment has one line feed only, and the line has none
    obtain ⟨_ | ⟨c, middle⟩, rfl, hmiddle⟩ := Utf8.exists_middle hwords htail
    · rwa [List.append_nil]
    · obtain ⟨rfl, -⟩ := List.cons.inj hmiddle
      exact absurd (List.mem_append_right words List.mem_cons_self) h
  · intro hcomment
    exact ⟨_, hcomment, rest, by simp⟩

/-- The empty line documents nothing. -/
theorem not_documents_nil : ¬Documents [] := by decide

/-- A line with one unit more in front documents if it is a comment as a whole, or did before. -/
theorem documents_cons {c : CodeUnit} {line : Text} (h : lineFeed ∉ c :: line) :
    Documents (c :: line) ↔ IsComment (c :: line ++ [lineFeed]) ∨ Documents line := by
  rw [isComment_iff h]
  unfold Documents
  rw [List.suffix_cons_iff, List.tails_cons]
  simp only [List.mem_cons, exists_eq_or_imp]
  rw [eq_comm (b := c :: line)]
  tauto

/-- In a line a comment ends if the line documents, and its end is that of the line. -/
theorem commentEnds_line {line : Text} (h : lineFeed ∉ line) (position : Nat) (rest : Text) :
    commentEnds position 0 (line ++ lineFeed :: rest) =
      (if Documents line then [position + line.length + 1] else []) ++
        commentEnds (position + line.length + 1) 0 rest := by
  induction line generalizing position with
  | nil =>
    have hbegins : ¬BeginsComment (lineFeed :: rest) := by
      have hline : BeginsComment ([] ++ lineFeed :: rest) ↔ IsComment [lineFeed] := beginsComment_line h rest
      rw [List.nil_append] at hline
      rw [hline]
      rintro ⟨⟩
    rw [List.nil_append, commentEnds_skip hbegins, if_neg not_documents_nil]
    rfl
  | cons c line ih =>
    have hrest : lineFeed ∉ line := fun hmem => h (List.mem_cons_of_mem c hmem)
    have hbegins := beginsComment_line h rest
    by_cases hcomment : IsComment (c :: line ++ [lineFeed])
    · have htext : c :: line ++ lineFeed :: rest = (c :: line ++ [lineFeed]) ++ rest := by simp
      rw [htext, commentEnds_comment hcomment, if_pos ((documents_cons h).mpr (.inl hcomment))]
      simp [Nat.add_assoc]
    · have hdocuments : Documents (c :: line) ↔ Documents line := by
        rw [documents_cons h, or_iff_right hcomment]
      rw [List.cons_append] at hbegins ⊢
      rw [commentEnds_skip (mt hbegins.mp hcomment), ih hrest, List.length_cons]
      simp only [hdocuments]
      rw [Nat.add_assoc position 1, Nat.add_comm 1]

/-- Without a line feed there is no comment. -/
theorem commentEnds_of_notMem {line : Text} (h : lineFeed ∉ line) (position : Nat) :
    commentEnds position 0 line = [] := by
  rw [List.eq_nil_iff_forall_not_mem]
  intro e he
  obtain ⟨before, after, rfl, -⟩ := (scans_commentEnds position line).exists_split e he
  exact h (by simp)

/-! ### All comments -/

/-- The positions of the line feeds whose lines document. -/
def documentingLines (source : Text) : List Nat :=
  (source.idxsOf lineFeed).filter fun position => Documents (lineAt source position)

/-- A text without a line feed has no positions of line feeds. -/
theorem idxsOf_of_notMem {text : Text} (h : lineFeed ∉ text) (position : Nat) :
    text.idxsOf lineFeed position = [] := by
  rw [List.idxsOf_eq_nil_iff]
  intro c hc
  rw [beq_eq_false_iff_ne]
  rintro rfl
  exact h hc

/-- The comments of a text are those of its lines. -/
theorem commentEnds_eq_map (source : Text) :
    commentEnds 0 0 source = (documentingLines source).map (· + 1) := by
  suffices general : ∀ (length : Nat) (before text : Text), text.length = length →
      (before = [] ∨ ∃ front, before = front ++ [lineFeed]) →
        commentEnds before.length 0 text =
          ((text.idxsOf lineFeed before.length).filter fun position =>
            Documents (lineAt (before ++ text) position)).map (· + 1) from
    general source.length [] source rfl (.inl rfl)
  intro length
  induction length using Nat.strong_induction_on with
  | _ length ih =>
    intro before text hlength hbefore
    by_cases hmem : lineFeed ∈ text
    · obtain ⟨line, rest, rfl, hline⟩ := List.eq_append_cons_of_mem hmem
      rw [List.length_append, List.length_cons] at hlength
      have hnone : line.idxsOf lineFeed before.length = [] := idxsOf_of_notMem hline _
      have htext : before ++ (line ++ lineFeed :: rest) = (before ++ line ++ [lineFeed]) ++ rest := by simp
      have hposition : (before ++ line ++ [lineFeed]).length = before.length + line.length + 1 := by
        simp [Nat.add_assoc]
      have hlater := ih rest.length (by omega) (before ++ line ++ [lineFeed]) rest rfl (.inr ⟨_, rfl⟩)
      rw [← htext, hposition] at hlater
      rw [commentEnds_line hline, hlater, List.idxsOf_append, hnone, List.nil_append, List.idxsOf_cons,
        if_pos (beq_self_eq_true lineFeed), List.filter_cons, lineAt_of_line hline hbefore]
      by_cases hdocuments : Documents line <;> simp [hdocuments]
    · rw [commentEnds_of_notMem hmem, idxsOf_of_notMem hmem]
      rfl

/-- The lines that document come from top to bottom. -/
theorem pairwise_documentingLines (source : Text) : (documentingLines source).Pairwise (· < ·) := by
  have hends := (scans_commentEnds 0 source).pairwise
  rw [commentEnds_eq_map, List.pairwise_map] at hends
  exact hends.imp Nat.lt_of_add_lt_add_right

/-- The comments of a text end with the line feeds of the lines that document. -/
theorem limits_eq_map (source : Text) :
    limits source =
      (documentingLines source).map fun position => Utf8.size (source.take (position + 1)) := by
  rw [limits_eq_sizes, commentEnds_eq_map, List.map_map]
  rfl

/-! ### The least from each limit on -/

/-- A later limit has no lesser number. -/
theorem leastFrom_mono {limit later : Nat} (h : limit ≤ later) {numbers : List Int} {n m : Int}
    (hn : leastFrom limit numbers = some n) (hm : leastFrom later numbers = some m) : n ≤ m := by
  obtain ⟨-, -, hleast⟩ := leastFrom_eq_some_iff.mp hn
  obtain ⟨hmem, hlater, -⟩ := leastFrom_eq_some_iff.mp hm
  exact hleast m hmem (by omega)

/-- The least numbers from increasing limits on are in order. -/
theorem pairwise_leastFrom {limits : List Nat} (h : limits.Pairwise (· ≤ ·)) (numbers : List Int) :
    (limits.filterMap fun limit => leastFrom limit numbers).Pairwise (· ≤ ·) := by
  rw [List.pairwise_filterMap]
  exact h.imp fun hle n hn m hm => leastFrom_mono hle hn hm

section FirstFrom

variable {α : Type} {isBefore : α → Nat → Bool} {limits : List Nat} {items : List α}

/-- Tests that agree on a list drop the same part of it. -/
theorem dropWhile_congr {p q : α → Bool} (h : ∀ x ∈ items, p x = q x) :
    items.dropWhile p = items.dropWhile q := by
  induction items with
  | nil => rfl
  | cons x items ih =>
    rw [List.dropWhile_cons, List.dropWhile_cons, h x List.mem_cons_self,
      ih fun y hy => h y (List.mem_cons_of_mem x hy)]

/-- What is found is one of the items. -/
theorem mem_of_mem_firstFrom {x : α} (h : x ∈ firstFrom isBefore limits items) : x ∈ items := by
  induction limits generalizing items with
  | nil => cases h
  | cons limit limits ih =>
    rw [firstFrom] at h
    have hsublist := List.dropWhile_sublist (l := items) fun o => isBefore o limit
    split at h
    · cases h
    · next offset rest hdrop =>
      rw [hdrop] at hsublist
      refine hsublist.subset ?_
      rcases List.mem_cons.mp h with rfl | hx
      · exact List.mem_cons_self
      · exact ih hx

/-- Items are found by a number that belongs to each, when the limits are read on the scale of these
numbers. -/
theorem map_firstFrom (key : α → Int) (scale : Nat → Nat)
    (h : ∀ limit ∈ limits, ∀ x ∈ items, isBefore x limit = decide (key x < (scale limit : Int))) :
    (firstFrom isBefore limits items).map key =
      firstFrom (fun o limit => decide (o < (limit : Int))) (limits.map scale) (items.map key) := by
  induction limits generalizing items with
  | nil => rfl
  | cons limit limits ih =>
    have hdrop : (items.map key).dropWhile (fun o => decide (o < (scale limit : Int))) =
        (items.dropWhile fun x => isBefore x limit).map key := by
      rw [List.dropWhile_map]
      exact congrArg _ (dropWhile_congr fun x hx => (h limit List.mem_cons_self x hx).symm)
    have hsublist := List.dropWhile_sublist (l := items) fun x => isBefore x limit
    rw [firstFrom, List.map_cons, firstFrom, hdrop]
    generalize (items.dropWhile fun x => isBefore x limit) = left at hsublist
    cases left with
    | nil => rfl
    | cons x left =>
      have hleft := ih fun later hlater y hy =>
        h later (List.mem_cons_of_mem limit hlater) y (hsublist.subset hy)
      simpa using hleft

end FirstFrom

/-! ### Offsets that need not be integers -/

/-- No comment ends beyond its text. -/
theorem le_size_of_mem_limits {source : Text} {limit : Nat} (h : limit ∈ limits source) :
    limit ≤ Utf8.size source := by
  rw [limits_eq_sizes] at h
  obtain ⟨e, he, rfl⟩ := List.mem_map.mp h
  obtain ⟨before, after, rfl, rfl⟩ := (scans_commentEnds 0 source).exists_split e he
  have hle := size_take_past_lineFeed before after after.length
  rw [take_past_lineFeed, List.take_length] at hle
  rwa [Nat.zero_add]

/-- On the scale of the least positive double the comments still end one after the other. -/
theorem pairwise_scaledLimits (source : Text) :
    ((limits source).map (· * 2 ^ Double.unitPlaces)).Pairwise (· ≤ ·) :=
  List.pairwise_map.mpr ((pairwise_limits source).imp fun hle => Nat.mul_le_mul_right _ hle)

/-- The numbers by which doubles are ordered are found as the least ones of integers are. -/
theorem map_rank_fractionalOffsets {source : Text} {identifiers : List Double}
    (hsize : Utf8.size source ≤ 2 ^ 53) (hnumbers : ∀ x ∈ identifiers, x.isNaN = false) :
    (fractionalOffsets source identifiers).map Double.rank =
      ((limits source).map (· * 2 ^ Double.unitPlaces)).filterMap fun limit =>
        leastFrom limit (identifiers.map Double.rank) := by
  have hsorted : (identifiers.mergeSort Double.le).map Double.rank =
      (identifiers.map Double.rank).mergeSort fun a b => decide (a ≤ b) :=
    List.map_mergeSort fun x hx y hy => Double.le_eq_decide (hnumbers x hx) (hnumbers y hy)
  have hbefore : ∀ limit ∈ limits source, ∀ x ∈ identifiers.mergeSort Double.le,
      (!(Double.ofNat limit).le x) = decide (x.rank < (limit * 2 ^ Double.unitPlaces : Nat)) := by
    intro limit hlimit x hx
    have hle : limit ≤ 2 ^ 53 := (le_size_of_mem_limits hlimit).trans hsize
    rw [Double.le_eq_decide (Double.isNaN_ofNat hle) (hnumbers x (List.mem_mergeSort.mp hx)),
      Double.rank_ofNat hle, ← decide_not]
    simp only [not_le]
  rw [fractionalOffsets, map_firstFrom Double.rank (· * 2 ^ Double.unitPlaces) hbefore, hsorted,
    firstFrom_mergeSort (pairwise_scaledLimits source)]

/-- The documented tokens of a text, line by line: for each line that documents, the least identifier
that does not lie before the end of the line, if there is one. So a line contributes at most once, and
what is found does not decrease. Offsets that need not be integers are found by the number that orders
them, in a text whose size is a double. -/
theorem offsets_line_by_line (source : Text) :
    (documentingLines source).Pairwise (· < ·) ∧
    (∀ identifiers : List Int,
      offsets source identifiers =
          (documentingLines source).filterMap (fun position =>
            leastFrom (Utf8.size (source.take (position + 1))) identifiers) ∧
        (offsets source identifiers).Pairwise (· ≤ ·)) ∧
    ∀ identifiers : List Double, (∀ x ∈ identifiers, x.isNaN = false) → Utf8.size source ≤ 2 ^ 53 →
      (fractionalOffsets source identifiers).map Double.rank =
          (documentingLines source).filterMap (fun position =>
            leastFrom (Utf8.size (source.take (position + 1)) * 2 ^ Double.unitPlaces)
              (identifiers.map Double.rank)) ∧
        (∀ x ∈ fractionalOffsets source identifiers, x ∈ identifiers) ∧
        (fractionalOffsets source identifiers).Pairwise fun x y => x.le y = true := by
  refine ⟨pairwise_documentingLines source, fun identifiers => ?_, fun identifiers hnumbers hsize => ?_⟩
  · have hoffsets : offsets source identifiers =
        (limits source).filterMap fun limit => leastFrom limit identifiers :=
      firstFrom_mergeSort (pairwise_limits source) identifiers
    refine ⟨?_, ?_⟩
    · rw [hoffsets, limits_eq_map, List.filterMap_map]
      rfl
    · rw [hoffsets]
      exact pairwise_leastFrom (pairwise_limits source) identifiers
  · have hranks := map_rank_fractionalOffsets hsize hnumbers
    have hmem : ∀ x ∈ fractionalOffsets source identifiers, x ∈ identifiers :=
      fun x hx => List.mem_mergeSort.mp (mem_of_mem_firstFrom hx)
    refine ⟨?_, hmem, ?_⟩
    · rw [hranks, limits_eq_map, List.map_map, List.filterMap_map]
      rfl
    · have hascending := pairwise_leastFrom (pairwise_scaledLimits source) (identifiers.map Double.rank)
      rw [← hranks, List.pairwise_map] at hascending
      refine hascending.imp_of_mem fun {x y} hx hy hle => ?_
      rw [Double.le_eq_decide (hnumbers x (hmem x hx)) (hnumbers y (hmem y hy)), decide_eq_true hle]

/-- A text of five lines: a comment with half a surrogate pair, slashes before a carriage return, the end
of a block comment, and a comment after which nothing comes. -/
def mixedLines : Text :=
  [slash, slash, slash, 0xE9, 0xD800, lineFeed, slash, slash, slash, carriageReturn, lineFeed,
    asterisk, slash, lineFeed, 0x61, lineFeed, slash, slash, slash, lineFeed]

/-- Of the five lines three document; offsets are found after them whatever order they come in, and so are
ones with a fraction. -/
theorem offsets_line_by_line_mixedLines :
    documentingLines mixedLines = [5, 13, 19] ∧ offsets mixedLines [17, 9, 17, 3, 9] = [9, 17] ∧
      (fractionalOffsets mixedLines [⟨0x4031800000000000⟩, ⟨0x4023000000000000⟩]).map Double.rank =
        [19 * 2 ^ 1073, 35 * 2 ^ 1073] := by
  have hlines : documentingLines mixedLines = [5, 13, 19] := by decide +kernel
  obtain ⟨-, hwhole, hfractional⟩ := offsets_line_by_line mixedLines
  have hranks := (hfractional [⟨0x4031800000000000⟩, ⟨0x4023000000000000⟩] (by decide) (by decide +kernel)).1
  refine ⟨hlines, ?_, ?_⟩
  · rw [(hwhole [17, 9, 17, 3, 9]).1, hlines]
    decide +kernel
  · rw [hranks, hlines]
    decide +kernel

end SwiftLens.Documented
