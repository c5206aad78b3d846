import SwiftLens.Proofs.Command.Composition
import SwiftLens.Proofs.Number.Overflow
import SwiftLens.Settings

/-!
# The waiting time

A waiting time comes from the command line or from the environment. Both read the number that a text begins
with: after white space and at most one plus sign there are digits (`BeginsWith`), and whatever follows them
is passed over. `timeout_of_text` says so of every text that is not empty: which number is read, that the
two places agree, and that anything else is a problem on the command line and the default in the environment.

A text that is a number as a whole, but for white space around it (`Spells`), is one where nothing but white
space follows the digits (`spells_iff`). So other texts than whole numbers are read as numbers, too, just
when something else follows a positive number at their front; `suffix_passed_over` has two of them.
-/

namespace SwiftLens

/-! ### White space around a text -/

namespace Text

/-- Only the white space in front of a text is taken away at its front. -/
theorem trimStart_append {blanks t : Text} (hblanks : blanks.isBlank = true)
    (ht : ∀ c ∈ t.head?, c.isBlank = false) : (blanks ++ t).trimStart = t := by
  rw [trimStart, List.dropWhile_append_of_pos (List.all_eq_true.mp hblanks)]
  cases t with
  | nil => rfl
  | cons c t => exact List.dropWhile_cons_of_neg (by simp [ht c rfl])

/-- What is taken away at the front of a text is white space. -/
theorem exists_trimStart (t : Text) : ∃ blanks, blanks.isBlank = true ∧ t = blanks ++ t.trimStart :=
  ⟨t.takeWhile CodeUnit.isBlank, List.all_takeWhile, List.takeWhile_append_dropWhile.symm⟩

/-- Only the white space behind a text is taken away at its end. -/
theorem trimEnd_append {blanks t : Text} (hblanks : blanks.isBlank = true)
    (ht : ∀ c ∈ t.getLast?, c.isBlank = false) : (t ++ blanks).trimEnd = t := by
  have hreverse : trimStart (t ++ blanks).reverse = t.reverse := by
    rw [List.reverse_append]
    exact trimStart_append (by simpa [isBlank] using hblanks) (by simpa using ht)
  rw [trimEnd, ← trimStart, hreverse, List.reverse_reverse]

/-- What is taken away at the end of a text is white space. -/
theorem exists_trimEnd (t : Text) : ∃ blanks, blanks.isBlank = true ∧ t = t.trimEnd ++ blanks := by
  obtain ⟨blanks, hblanks, ht⟩ := exists_trimStart t.reverse
  refine ⟨blanks.reverse, by simpa [isBlank] using hblanks, ?_⟩
  rw [trimEnd, ← trimStart, ← List.reverse_append, ← ht, List.reverse_reverse]

end Text

/-- A digit is no white space. -/
theorem CodeUnit.isBlank_of_isDigit {c : CodeUnit} (h : c.isDigit = true) : c.isBlank = false := by
  simp only [isDigit, Bool.and_eq_true, decide_eq_true_eq, UInt16.le_iff_toNat_le, UInt16.reduceToNat] at h
  simp [isBlank, UInt16.le_iff_toNat_le, ← UInt16.toNat_inj, ← Bool.not_eq_true]
  omega

/-- The nearest double of a natural number is that of the same integer. -/
theorem Double.ofInt_natCast (n : Nat) : Double.ofInt (n : Int) = Double.ofNat n := by
  rw [Double.ofInt, Double.ofNat, Int.natAbs_natCast, decide_eq_false (by omega)]

namespace Setting

open CodeUnit Text

/-! ### The number at the front of a text -/

/-- The text is white space, at most one plus sign, digits, and a tail that begins with no digit. -/
structure BeginsWith (s digits tail : Text) : Prop where
  isDigits : digits.isDigits = true
  tail_isDigit : ∀ c ∈ tail.head?, c.isDigit = false
  layout : ∃ blanks sign : Text, blanks.isBlank = true ∧ (sign = [] ∨ sign = [plus]) ∧
    s = blanks ++ (sign ++ (digits ++ tail))

/-- The text is digits after at most one plus sign, with white space around them. -/
def Spells (s digits : Text) : Prop :=
  digits.isDigits = true ∧ (s.trim = digits ∨ s.trim = plus :: digits)

/-- The waiting time that digits stand for: the double nearest to their value, which must be positive and
not too great. -/
structure Denotes (digits : Text) (x : Double) : Prop where
  positive : 0 < digits.digitsValue
  lt_overflow : digits.digitsValue < Double.overflow
  nearest : x = Double.ofNat digits.digitsValue

/-- The text without its first unit if that is a plus sign. -/
def withoutPlus : Text → Text
  | plus :: rest => rest
  | t => t

/-- A text that does not begin with a plus sign loses nothing. -/
theorem withoutPlus_of_ne {c : CodeUnit} (h : c ≠ plus) (t : Text) : withoutPlus (c :: t) = c :: t := by
  unfold withoutPlus
  split
  · next heq => exact absurd (List.cons.inj heq).1 h
  · rfl

/-- At most one plus sign is taken away. -/
theorem exists_withoutPlus (t : Text) :
    ∃ sign : Text, (sign = [] ∨ sign = [plus]) ∧ t = sign ++ withoutPlus t := by
  unfold withoutPlus
  split
  · exact ⟨[plus], .inr rfl, rfl⟩
  · exact ⟨[], .inl rfl, rfl⟩

/-- The digits at the front of a text, after white space and at most one plus sign. -/
def leadingDigits (s : Text) : Text := (withoutPlus s.trimStart).takeWhile isDigit

/-- There is a first digit. -/
theorem exists_digit {digits : Text} (h : digits.isDigits = true) :
    ∃ d rest, digits = d :: rest ∧ d.isDigit = true := by
  obtain ⟨hne, hall⟩ := Bool.and_eq_true_iff.mp h
  obtain ⟨d, rest, rfl⟩ := List.exists_cons_of_ne_nil (by simpa using hne)
  exact ⟨d, rest, rfl, (Bool.and_eq_true_iff.mp hall).1⟩

/-- A digit is none of the units that are no digits. -/
theorem ne_of_isDigit {c d : CodeUnit} (hc : c.isDigit = true) (hd : d.isDigit = false) : c ≠ d := by
  rintro rfl
  rw [hc] at hd
  cases hd

namespace BeginsWith

variable {s digits tail : Text}

/-- What is left of the text without white space at its front: no minus sign, and digits after a plus
sign. -/
theorem trimStart_eq (h : BeginsWith s digits tail) :
    s.trimStart.head? ≠ some minus ∧ withoutPlus s.trimStart = digits ++ tail := by
  obtain ⟨blanks, sign, hblanks, hsign, rfl⟩ := h.layout
  obtain ⟨d, rest, rfl, hd⟩ := exists_digit h.isDigits
  rcases hsign with rfl | rfl
  · rw [trimStart_append hblanks (by simpa using isBlank_of_isDigit hd)]
    refine ⟨by simpa using ne_of_isDigit hd (by decide), ?_⟩
    exact withoutPlus_of_ne (ne_of_isDigit hd (by decide)) _
  · have hplus : isBlank plus = false := by decide
    rw [trimStart_append hblanks (by simpa using hplus)]
    exact ⟨by simp [plus, minus], rfl⟩

/-- The digits at the front of a text are those with which it begins. -/
theorem leadingDigits_eq (h : BeginsWith s digits tail) : leadingDigits s = digits := by
  have hall : ∀ c ∈ digits, c.isDigit = true :=
    List.all_eq_true.mp (Bool.and_eq_true_iff.mp h.isDigits).2
  rw [leadingDigits, h.trimStart_eq.2, List.takeWhile_append_of_pos hall]
  cases tail with
  | nil => exact List.append_nil digits
  | cons c tail => rw [List.takeWhile_cons_of_neg (by simp [h.tail_isDigit c rfl]), List.append_nil]

/-- A text begins with one number at most. -/
theorem unique (h : BeginsWith s digits tail) {digits' tail' : Text} (h' : BeginsWith s digits' tail') :
    digits = digits' ∧ tail = tail' := by
  have hdigits : digits = digits' := h.leadingDigits_eq.symm.trans h'.leadingDigits_eq
  refine ⟨hdigits, ?_⟩
  have happend := h.trimStart_eq.2.symm.trans h'.trimStart_eq.2
  rw [hdigits] at happend
  exact List.append_cancel_left happend

end BeginsWith

/-- A text that has digits at its front begins with a number. -/
theorem exists_beginsWith {s : Text} (h : leadingDigits s ≠ []) :
    ∃ tail, BeginsWith s (leadingDigits s) tail := by
  refine ⟨(withoutPlus s.trimStart).dropWhile isDigit, ?_, ?_, ?_⟩
  · simpa [isDigits, leadingDigits] using h
  · intro c hc
    have hhead := List.head?_dropWhile_not isDigit (withoutPlus s.trimStart)
    rw [hc] at hhead
    exact hhead
  · obtain ⟨blanks, hblanks, hs⟩ := exists_trimStart s
    obtain ⟨sign, hsign, htrim⟩ := exists_withoutPlus s.trimStart
    refine ⟨blanks, sign, hblanks, hsign, ?_⟩
    rw [leadingDigits, List.takeWhile_append_dropWhile, ← htrim]
    exact hs

/-- A text with a minus sign at its front denotes no positive integer. -/
theorem leadingInteger?_of_minus {s rest : Text} (h : s.trimStart = minus :: rest) {n : Int}
    (hn : leadingInteger? s = some n) : n ≤ 0 := by
  have hread : leadingInteger? s = if rest.takeWhile isDigit = [] then none
      else some (-(digitsValue (rest.takeWhile isDigit) : Int)) := by
    unfold leadingInteger?
    rw [h]
    show Option.map (fun n : Int => -n) _ = _
    generalize rest.takeWhile isDigit = digits
    cases digits <;> rfl
  rw [hread] at hn
  split_ifs at hn
  obtain rfl := Option.some.inj hn
  omega

/-- The integer at the front of any other text is that of its digits. -/
theorem leadingInteger?_eq {s : Text} (h : s.trimStart.head? ≠ some minus) :
    leadingInteger? s =
      if leadingDigits s = [] then none else some ((leadingDigits s).digitsValue : Int) := by
  unfold leadingInteger? leadingDigits
  split
  · next hminus => simp [hminus] at h
  · next rest hplus =>
    have hwithout : withoutPlus s.trimStart = rest := by rw [hplus]; rfl
    rw [hwithout]
    generalize rest.takeWhile isDigit = digits
    cases digits <;> rfl
  · next t hminus hplus =>
    have hwithout : withoutPlus s.trimStart = s.trimStart := by
      unfold withoutPlus
      split
      · next rest heq => exact absurd heq (hplus rest)
      · rfl
    rw [hwithout]
    generalize s.trimStart.takeWhile isDigit = digits
    cases digits <;> rfl

/-- Digits stand for a waiting time if their nearest double is finite and they are not all zeros. -/
theorem denotes_iff {digits : Text} {x : Double} :
    Denotes digits x ↔ 0 < digits.digitsValue ∧ x.isFinite = true ∧ x = Double.ofNat digits.digitsValue := by
  constructor
  · rintro ⟨hpositive, hlt, rfl⟩
    exact ⟨hpositive, (Double.isFinite_ofNat_iff _).mpr hlt, rfl⟩
  · rintro ⟨hpositive, hfinite, rfl⟩
    exact ⟨hpositive, (Double.isFinite_ofNat_iff _).mp hfinite, rfl⟩

/-- The waiting time that is read is that of the number at the front. -/
theorem positive?_eq_some_iff {s : Text} {x : Double} :
    positive? s = some x ↔ ∃ digits tail, BeginsWith s digits tail ∧ Denotes digits x := by
  simp only [denotes_iff]
  constructor
  · intro h
    unfold positive? at h
    split at h
    case h_2 => cases h
    case h_1 n hn =>
      split_ifs at h with hpositive
      obtain rfl := Option.some.inj h
      have hminus : s.trimStart.head? ≠ some minus := by
        intro hminus
        have hle := leadingInteger?_of_minus (List.eq_cons_of_mem_head? hminus) hn
        omega
      rw [leadingInteger?_eq hminus] at hn
      split_ifs at hn with hdigits
      obtain rfl := Option.some.inj hn
      obtain ⟨tail, hbegins⟩ := exists_beginsWith hdigits
      exact ⟨_, tail, hbegins, by exact_mod_cast hpositive.1, hpositive.2, Double.ofInt_natCast _⟩
  · rintro ⟨digits, tail, hbegins, hpositive, hfinite, rfl⟩
    have hne : digits ≠ [] := by
      rintro rfl
      exact absurd hpositive (by decide)
    unfold positive?
    rw [leadingInteger?_eq hbegins.trimStart_eq.1, hbegins.leadingDigits_eq, if_neg hne]
    dsimp only
    rw [Double.ofInt_natCast, if_pos ⟨by exact_mod_cast hpositive, hfinite⟩]

/-! ### Whole numbers -/

/-- A text is a number as a whole just when only white space follows the number that it begins with. -/
theorem spells_iff {s digits : Text} :
    Spells s digits ↔ ∃ tail, BeginsWith s digits tail ∧ tail.isBlank = true := by
  constructor
  · rintro ⟨hdigits, htrim⟩
    obtain ⟨blanks, hblanks, hs⟩ := exists_trimStart s
    obtain ⟨tail, htail, hstart⟩ := exists_trimEnd s.trimStart
    refine ⟨tail, ⟨hdigits, ?_, blanks, ?_⟩, htail⟩
    · intro c hc
      rw [← Bool.not_eq_true]
      intro hdigit
      have hblank := List.all_eq_true.mp htail c (List.mem_of_mem_head? hc)
      rw [isBlank_of_isDigit hdigit] at hblank
      cases hblank
    · rw [← trim] at hstart
      rcases htrim with htrim | htrim
      · exact ⟨[], hblanks, .inl rfl, by rw [List.nil_append, ← htrim, ← hstart, ← hs]⟩
      · refine ⟨[plus], hblanks, .inr rfl, ?_⟩
        rw [← List.append_assoc [plus], List.singleton_append, ← htrim, ← hstart, ← hs]
  · rintro ⟨tail, ⟨hdigits, -, blanks, sign, hblanks, hsign, rfl⟩, htail⟩
    obtain ⟨d, rest, rfl, hd⟩ := exists_digit hdigits
    have hall := List.all_eq_true.mp (Bool.and_eq_true_iff.mp hdigits).2
    have hfirst : ∀ c ∈ (sign ++ (d :: rest ++ tail)).head?, c.isBlank = false := by
      have hplus : isBlank plus = false := by decide
      rcases hsign with rfl | rfl
      · simpa using isBlank_of_isDigit hd
      · simpa using hplus
    have hlast : ∀ c ∈ (sign ++ (d :: rest)).getLast?, c.isBlank = false := by
      intro c hc
      rw [List.getLast?_append_of_ne_nil _ (List.cons_ne_nil d rest)] at hc
      exact isBlank_of_isDigit (hall c (List.mem_of_mem_getLast? hc))
    have htrim : (blanks ++ (sign ++ (d :: rest ++ tail))).trim = sign ++ (d :: rest) := by
      rw [trim, trimStart_append hblanks hfirst, ← List.append_assoc, trimEnd_append htail hlast]
    refine ⟨hdigits, ?_⟩
    rw [htrim]
    rcases hsign with rfl | rfl
    · exact .inl rfl
    · exact .inr rfl

/-! ### The two places -/

/-- A command line with nothing but a waiting time. -/
theorem parse_timeout {s : Text} (hs : s ≠ "") :
    Options.parse ["--timeout-ms", s] = Options.empty.takeTimeout s := by
  obtain ⟨c, t, rfl⟩ := List.exists_cons_of_ne_nil hs
  rfl

/-- The waiting time that is read is the positive number at the front of the word. -/
theorem timeout_parse {s : Text} (hs : s ≠ "") :
    (Options.parse ["--timeout-ms", s]).timeout = positive? s := by
  rw [parse_timeout hs, Options.takeTimeout]
  cases positive? s <;> rfl

/-- A word without a positive number at its front is the one problem. -/
theorem problems_parse {s : Text} (hs : s ≠ "") :
    (Options.parse ["--timeout-ms", s]).problems =
      if (positive? s).isSome then []
      else ["--timeout-ms expects a positive integer, got " ++ quoted s ++ "."] := by
  rw [parse_timeout hs, Options.takeTimeout]
  cases positive? s <;> rfl

/-- What is read of a text as a waiting time, on the command line and in the environment. It is the number
that the text begins with, if that is positive and not too great; otherwise there is one problem here and
the default there. The number is exact up to `2 ^ 53`. Only texts that are positive numbers as a whole are
read just when nothing but white space follows the number at the front. -/
theorem timeout_of_text {s : Text} (hs : s ≠ "") :
    let said := Options.parse ["--timeout-ms", s]
    (∀ x, said.timeout = some x ↔ ∃ digits tail, BeginsWith s digits tail ∧ Denotes digits x) ∧
    said.problems = (if said.timeout.isSome then []
      else ["--timeout-ms expects a positive integer, got " ++ quoted s ++ "."]) ∧
    (∀ default, positiveOr (some s) default = said.timeout.getD default) ∧
    (∀ digits x, Denotes digits x → digits.digitsValue ≤ 2 ^ 53 → x.toInt? = some (digits.digitsValue : Int)) ∧
    ((∀ x, said.timeout = some x ↔ ∃ digits, Spells s digits ∧ Denotes digits x) ↔
      ∀ digits tail x, BeginsWith s digits tail → Denotes digits x → tail.isBlank = true) := by
  intro said
  have hread : ∀ x, said.timeout = some x ↔ ∃ digits tail, BeginsWith s digits tail ∧ Denotes digits x := by
    intro x
    rw [timeout_parse hs, positive?_eq_some_iff]
  refine ⟨hread, ?_, ?_, ?_, ?_⟩
  · rw [problems_parse hs, timeout_parse hs]
  · intro default
    rw [timeout_parse hs]
    rfl
  · rintro digits x ⟨-, -, rfl⟩ hsmall
    exact (Double.toInt?_ofNat hsmall).2
  · constructor
    · intro hwhole digits tail x hbegins hdenotes
      obtain ⟨digits', hspells, -⟩ := (hwhole x).mp ((hread x).mpr ⟨digits, tail, hbegins, hdenotes⟩)
      obtain ⟨tail', hbegins', hblank⟩ := spells_iff.mp hspells
      obtain ⟨-, rfl⟩ := hbegins.unique hbegins'
      exact hblank
    · intro hblank x
      rw [hread x]
      constructor
      · rintro ⟨digits, tail, hbegins, hdenotes⟩
        exact ⟨digits, spells_iff.mpr ⟨tail, hbegins, hblank digits tail x hbegins hdenotes⟩, hdenotes⟩
      · rintro ⟨digits, hspells, hdenotes⟩
        obtain ⟨tail, hbegins, -⟩ := spells_iff.mp hspells
        exact ⟨digits, tail, hbegins, hdenotes⟩

/-- White space and a plus sign around a number are no part of it. -/
theorem timeout_of_text_padded :
    (" +42\n" : Text) ≠ "" ∧
      (Options.parse ["--timeout-ms", " +42\n"]).timeout = some (Double.ofNat 42) := by
  have hs : (" +42\n" : Text) ≠ "" := by decide
  have hbegins : BeginsWith " +42\n" "42" "\n" := by
    refine ⟨by decide, ?_, " ", "+", by decide, .inr rfl, by decide⟩
    rintro _ ⟨⟩
    rfl
  have hdenotes : Denotes "42" (Double.ofNat 42) :=
    ⟨by decide, (Double.isFinite_ofNat_iff 42).mp (by decide), rfl⟩
  exact ⟨hs, ((timeout_of_text hs).1 _).mpr ⟨"42", "\n", hbegins, hdenotes⟩⟩

/-- A unit of time and an exponent are passed over: neither text is a number, and both are read as one, as
ten milliseconds and as a single one. -/
theorem suffix_passed_over :
    (¬∃ digits, Spells "10s" digits) ∧
    (Options.parse ["--timeout-ms", "10s"]).timeout = some (Double.ofNat 10) ∧
    (Options.parse ["--timeout-ms", "10s"]).problems = [] ∧
    (¬∃ digits, Spells "1e5" digits) ∧
    positiveOr (some "1e5") (Double.ofNat 7) = Double.ofNat 1 := by
  have hnone : ∀ s : Text, s.trim = s → s.isDigits = false → s.head? ≠ some plus →
      ¬∃ digits, Spells s digits := by
    rintro s htrim hdigits hplus ⟨digits, hspelt, h | h⟩
    · rw [← h, htrim, hdigits] at hspelt
      cases hspelt
    · rw [← htrim, h] at hplus
      exact hplus rfl
  exact ⟨hnone _ (by decide) (by decide) (by decide), by decide, by decide,
    hnone _ (by decide) (by decide) (by decide), by decide⟩

end Setting

end SwiftLens
