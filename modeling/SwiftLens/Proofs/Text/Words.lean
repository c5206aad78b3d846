import SwiftLens.Proofs.Json.Layout
import SwiftLens.Text.Words

/-!
# Quoted words

A space inside a word is quoted by a backslash (`quoteSpaces`). `words_spread` is that cutting an argument
string undoes quoting: whatever white space stands before, between and after quoted words, the words are
found again, among them words of nothing but spaces and words that have backslashes, also before a space.

A word must be something (`IsWord`): an empty one leaves no trace, U+0000 is what spaces are hidden behind,
other white space cannot be quoted, and a backslash at the end would quote the white space after it.

The proof follows the three moves of `words`. Hiding turns a quoted word into the word with U+0000 for its
spaces, and leaves white space alone (`hideEscapedSpaces_quoteSpaces_append`); what is hidden has no white
space, so that cutting finds it (`chunks_append`); and revealing restores it.
-/

namespace SwiftLens.Text

open CodeUnit

/-! ### Quoting -/

/-- A text with a backslash before each of its spaces. -/
def quoteSpaces (t : Text) : Text := t.flatMap fun c => if c = space then [backslash, space] else [c]

/-- What can stand in an argument string as one word, after quoting. -/
structure IsWord (t : Text) : Prop where
  ne_nil : t ≠ []
  nul_notMem : nul ∉ t
  /-- The only white space is the space. -/
  space_of_isBlank : ∀ c ∈ t, c.isBlank = true → c = space
  last_ne_backslash : t.getLast? ≠ some backslash

/-- Whether a text can stand as one word can be checked unit by unit. -/
theorem isWord_iff {t : Text} : IsWord t ↔ t ≠ [] ∧ nul ∉ t ∧
    (t.all fun c => decide (c.isBlank = true → c = space)) = true ∧ t.getLast? ≠ some backslash := by
  simp only [List.all_eq_true, decide_eq_true_eq]
  exact ⟨fun ⟨hne, hnul, hspace, hlast⟩ => ⟨hne, hnul, hspace, hlast⟩,
    fun ⟨hne, hnul, hspace, hlast⟩ => ⟨hne, hnul, hspace, hlast⟩⟩

instance (t : Text) : Decidable (IsWord t) := decidable_of_iff _ isWord_iff.symm

/-- Quoted words, each with the white space after it, and white space before them all. -/
def spread (lead : Text) (pieces : List (Text × Text)) : Text :=
  lead ++ pieces.flatMap fun piece => quoteSpaces piece.1 ++ piece.2

/-- A space is quoted by a backslash. -/
@[simp] theorem quoteSpaces_space (t : Text) :
    quoteSpaces (space :: t) = backslash :: space :: quoteSpaces t := rfl

/-- Any other unit stands for itself. -/
theorem quoteSpaces_cons {c : CodeUnit} (h : c ≠ space) (t : Text) :
    quoteSpaces (c :: t) = c :: quoteSpaces t := by
  simp [quoteSpaces, h]

/-- A quoted word does not begin with a space: one that does begins with a backslash when quoted. -/
theorem exists_quoteSpaces {t : Text} (h : t ≠ []) : ∃ c rest, quoteSpaces t = c :: rest ∧ c ≠ space := by
  obtain ⟨c, t, rfl⟩ := List.exists_cons_of_ne_nil h
  by_cases hc : c = space
  · exact ⟨backslash, space :: quoteSpaces t, by rw [hc, quoteSpaces_space], by decide⟩
  · exact ⟨c, quoteSpaces t, quoteSpaces_cons hc t, hc⟩

/-! ### Hiding -/

/-- A space after a backslash is hidden. -/
@[simp] theorem hideEscapedSpaces_escaped (t : Text) :
    hideEscapedSpaces (backslash :: space :: t) = nul :: hideEscapedSpaces t := rfl

/-- Any unit but a backslash stands for itself. -/
theorem hideEscapedSpaces_cons {c : CodeUnit} (h : c ≠ backslash) (t : Text) :
    hideEscapedSpaces (c :: t) = c :: hideEscapedSpaces t := by
  rw [hideEscapedSpaces]
  rintro _ rfl
  exact absurd rfl h

/-- A backslash stands for itself unless a space follows it. -/
theorem hideEscapedSpaces_backslash {c : CodeUnit} (h : c ≠ space) (t : Text) :
    hideEscapedSpaces (backslash :: c :: t) = backslash :: hideEscapedSpaces (c :: t) := by
  rw [hideEscapedSpaces]
  rintro _ - heq
  exact h (List.cons.inj heq).1

/-- White space is no backslash. -/
theorem ne_backslash_of_isBlank {c : CodeUnit} (h : c.isBlank = true) : c ≠ backslash := by
  rintro rfl
  exact absurd h (by decide)

/-- White space is left alone. -/
theorem hideEscapedSpaces_isBlank_append {gap : Text} (h : gap.isBlank = true) (rest : Text) :
    hideEscapedSpaces (gap ++ rest) = gap ++ hideEscapedSpaces rest := by
  induction gap with
  | nil => rfl
  | cons c gap ih =>
    obtain ⟨hc, hgap⟩ := Bool.and_eq_true_iff.mp h
    rw [List.cons_append, hideEscapedSpaces_cons (ne_backslash_of_isBlank hc), ih hgap, List.cons_append]

/-- The text with U+0000 for each space. -/
def hideSpaces (t : Text) : Text := t.map fun c => if c = space then nul else c

/-- Units are hidden one by one. -/
@[simp] theorem hideSpaces_cons (c : CodeUnit) (t : Text) :
    hideSpaces (c :: t) = (if c = space then nul else c) :: hideSpaces t := rfl

/-- In a quoted word that does not end in a backslash, just the spaces of the word are hidden. -/
theorem hideEscapedSpaces_quoteSpaces_append {t : Text} (h : t.getLast? ≠ some backslash) (rest : Text) :
    hideEscapedSpaces (quoteSpaces t ++ rest) = hideSpaces t ++ hideEscapedSpaces rest := by
  induction t with
  | nil => rfl
  | cons c t ih =>
    have ht : t.getLast? ≠ some backslash := by
      intro hlast
      rw [List.getLast?_cons, hlast] at h
      exact h rfl
    rw [hideSpaces_cons, List.cons_append, ← ih ht]
    by_cases hspace : c = space
    · rw [if_pos hspace, hspace, quoteSpaces_space, List.cons_append, List.cons_append,
        hideEscapedSpaces_escaped]
    rw [if_neg hspace, quoteSpaces_cons hspace, List.cons_append]
    by_cases hslash : c = backslash
    · -- the backslash is not the last unit, and what comes after it does not begin with a space
      have hne : t ≠ [] := by
        rintro rfl
        exact h (congrArg some hslash)
      obtain ⟨d, tail, hquoted, hd⟩ := exists_quoteSpaces hne
      rw [hquoted, hslash, List.cons_append, hideEscapedSpaces_backslash hd]
    · exact hideEscapedSpaces_cons hslash _

/-! ### Cutting -/

/-- What stands between the white space of a text. -/
def chunks (t : Text) : List Text := (t.splitOn CodeUnit.isBlank).filter fun w => !w.isEmpty

/-- The words of a text are its chunks between white space, once escaped spaces are hidden, with them shown
again. -/
theorem words_eq (t : Text) : t.words = (chunks t.hideEscapedSpaces).map revealSpaces := rfl

/-- White space in front makes no chunk. -/
theorem chunks_isBlank_append {gap : Text} (h : gap.isBlank = true) (rest : Text) :
    chunks (gap ++ rest) = chunks rest := by
  induction gap with
  | nil => rfl
  | cons c gap ih =>
    obtain ⟨hc, hgap⟩ := Bool.and_eq_true_iff.mp h
    rw [← ih hgap, List.cons_append, chunks, splitOn, if_pos hc]
    rfl

/-- A text without white space is found if white space or nothing follows it. -/
theorem chunks_append {w gap : Text} (hne : w ≠ []) (hw : ∀ c ∈ w, c.isBlank = false)
    (hgap : gap.isBlank = true) {rest : Text} (hrest : gap ≠ [] ∨ rest = []) :
    chunks (w ++ (gap ++ rest)) = w :: chunks rest := by
  have hkept : (!w.isEmpty) = true := by simpa using hne
  cases gap with
  | nil =>
    obtain rfl : rest = [] := hrest.resolve_left (absurd rfl)
    rw [List.nil_append, List.append_nil, chunks, splitOn_of_forall hw, List.filter_cons, if_pos hkept]
    rfl
  | cons c gap =>
    obtain ⟨hc, hgap⟩ := Bool.and_eq_true_iff.mp hgap
    rw [List.cons_append, chunks, splitOn_append_cons hw hc, List.filter_cons, if_pos hkept]
    exact congrArg (w :: ·) (chunks_isBlank_append hgap rest)

/-! ### Words -/

namespace IsWord

variable {w : Text}

/-- A word is not empty when its spaces are hidden. -/
theorem hideSpaces_ne_nil (h : IsWord w) : hideSpaces w ≠ [] := by
  simpa [hideSpaces] using h.ne_nil

/-- Once its spaces are hidden a word has no white space. -/
theorem isBlank_hideSpaces (h : IsWord w) : ∀ c ∈ hideSpaces w, c.isBlank = false := by
  intro c hc
  obtain ⟨d, hd, rfl⟩ := List.mem_map.mp hc
  by_cases hspace : d = space
  · rw [if_pos hspace]
    rfl
  · rw [if_neg hspace, ← Bool.not_eq_true]
    exact fun hblank => hspace (h.space_of_isBlank d hd hblank)

/-- The spaces of a word are found again, since it has no U+0000 of its own. -/
theorem revealSpaces_hideSpaces (h : IsWord w) : revealSpaces (hideSpaces w) = w := by
  rw [revealSpaces, hideSpaces, List.map_map]
  refine (List.map_congr_left fun c hc => ?_).trans (List.map_id w)
  have hnul : c ≠ nul := fun heq => h.nul_notMem (heq ▸ hc)
  by_cases hspace : c = space <;> simp [hspace, hnul]

/-- A quoted word is found if white space or nothing follows it. -/
theorem words_quoteSpaces_append (h : IsWord w) {gap : Text} (hgap : gap.isBlank = true) {rest : Text}
    (hrest : gap ≠ [] ∨ rest = []) :
    (quoteSpaces w ++ (gap ++ rest)).words = w :: rest.words := by
  have hhidden : gap ≠ [] ∨ hideEscapedSpaces rest = [] := by
    apply hrest.imp_right
    rintro rfl
    rfl
  rw [words_eq, hideEscapedSpaces_quoteSpaces_append h.last_ne_backslash,
    hideEscapedSpaces_isBlank_append hgap,
    chunks_append h.hideSpaces_ne_nil h.isBlank_hideSpaces hgap hhidden, List.map_cons,
    h.revealSpaces_hideSpaces, words_eq]

end IsWord

/-- White space in front makes no word. -/
theorem words_isBlank_append {lead : Text} (h : lead.isBlank = true) (rest : Text) :
    (lead ++ rest).words = rest.words := by
  rw [words_eq, hideEscapedSpaces_isBlank_append h, chunks_isBlank_append h, words_eq]

/-- The words of quoted words are the words, whatever white space stands around them. Only after the last
word may there be none. -/
theorem words_spread {lead : Text} {pieces : List (Text × Text)} (hlead : lead.isBlank = true)
    (hwords : ∀ piece ∈ pieces, IsWord piece.1) (hgaps : ∀ piece ∈ pieces, piece.2.isBlank = true)
    (hbetween : ∀ piece ∈ pieces.dropLast, piece.2 ≠ []) :
    (spread lead pieces).words = pieces.map Prod.fst := by
  rw [spread, words_isBlank_append hlead]
  induction pieces with
  | nil => rfl
  | cons piece rest ih =>
    obtain ⟨hword, hwords⟩ := List.forall_mem_cons.mp hwords
    obtain ⟨hgap, hgaps⟩ := List.forall_mem_cons.mp hgaps
    have hrest : piece.2 ≠ [] ∨
        (rest.flatMap fun piece => quoteSpaces piece.1 ++ piece.2) = [] := by
      by_cases hlast : rest = []
      · simp [hlast]
      · rw [List.dropLast_cons_of_ne_nil hlast] at hbetween
        exact .inl (hbetween piece List.mem_cons_self)
    have hlater : ∀ piece ∈ rest.dropLast, piece.2 ≠ [] := by
      intro later hmem
      apply hbetween
      rw [List.dropLast_cons_of_ne_nil (by rintro rfl; simp at hmem)]
      exact List.mem_cons_of_mem _ hmem
    rw [List.flatMap_cons, List.append_assoc, hword.words_quoteSpaces_append hgap hrest,
      ih hwords hgaps hlater, List.map_cons]

/-- A word of spaces, one with a backslash before a space, and one with a backslash at its front, with tabs
and line feeds around them. -/
theorem words_spread_backslashes :
    let pieces : List (Text × Text) := [("  ", "\t "), ("a\\ b", "\n"), ("\\c", "")]
    spread " " pieces = " \\ \\ \t a\\\\ b\n\\c" ∧
      (spread " " pieces).words = ["  ", "a\\ b", "\\c"] := by
  exact ⟨by decide, words_spread rfl (by decide) (by decide) (by decide)⟩

end SwiftLens.Text
