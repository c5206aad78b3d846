import SwiftLens.Proofs.Json.Values
import SwiftLens.Proofs.Text.Decimal

/-!
# Texts that read as numbers

A numeral is a sign, a whole part, a fraction and an exponent, the last two of which may be missing.
`readUnsigned_parts` reads such a text back: every part ends where the next one begins, since no part
begins with a digit, and the last one ends where the value does. Integers are the case without
fraction and exponent, and keep every digit (`reads_integer`).
-/

namespace SwiftLens.Json

open CodeUnit

/-! ### The parts of a numeral -/

/-- The fraction of a numeral as written: nothing when it has no digits. -/
def fractionText : Text → Text
  | [] => []
  | digits => dot :: digits

/-- The exponent of a numeral as written, if there is one; it always has a sign. -/
def exponentText : Option Int → Text
  | none => []
  | some e => (if e < 0 then "e-" else "e+") ++ Text.ofNat e.natAbs

/-- The units that begin an exponent. -/
def isExponentMark (c : CodeUnit) : Bool := c == 0x65 || c == 0x45

/-- What a value may end at does not go on with a numeral. -/
theorem not_numeric_of_endsValue {c : CodeUnit} {rest : Text} (h : endsValue (c :: rest) = true) :
    c.isDigit = false ∧ c ≠ dot ∧ isExponentMark c = false := by
  simp only [endsValue, isSeparator, Bool.or_eq_true, beq_iff_eq] at h
  rcases h with (((((rfl | rfl) | rfl) | rfl) | rfl) | rfl) | rfl <;> decide

/-- Digits are read up to the first unit that is none. -/
theorem readDigits_append {digits rest : Text} (hdigits : digits.all CodeUnit.isDigit = true)
    (hrest : ∀ c, rest.head? = some c → c.isDigit = false) :
    readDigits (digits ++ rest) = (digits, rest) := by
  have hall := List.all_eq_true.mp hdigits
  rw [readDigits, List.span_eq_takeWhile_dropWhile, List.takeWhile_append_of_pos hall,
    List.dropWhile_append_of_pos hall]
  cases rest with
  | nil => simp
  | cons c rest =>
    have hc := hrest c rfl
    rw [List.takeWhile_cons, List.dropWhile_cons, hc]
    simp

/-- After the exponent comes what ends the value. -/
theorem head_exponentText {e : Option Int} {rest : Text} (hrest : endsValue rest = true) :
    ∀ c, (exponentText e ++ rest).head? = some c → c.isDigit = false ∧ c ≠ dot := by
  intro c hc
  cases e with
  | none =>
    cases rest with
    | nil => cases hc
    | cons d rest =>
      cases hc
      have h := not_numeric_of_endsValue hrest
      exact ⟨h.1, h.2.1⟩
  | some e =>
    simp only [exponentText] at hc
    split at hc <;> cases hc <;> decide

/-- After the fraction comes the exponent. -/
theorem head_fractionText {digits : Text} {e : Option Int} {rest : Text}
    (hrest : endsValue rest = true) :
    ∀ c, (fractionText digits ++ (exponentText e ++ rest)).head? = some c → c.isDigit = false := by
  intro c hc
  cases digits with
  | nil => exact (head_exponentText hrest c hc).1
  | cons d digits => cases hc; decide

/-! ### Reading the parts -/

/-- A fraction is read up to the exponent. -/
theorem readFraction_fractionText {digits : Text} (hdigits : digits.all CodeUnit.isDigit = true)
    {e : Option Int} {rest : Text} (hrest : endsValue rest = true) :
    readFraction (fractionText digits ++ (exponentText e ++ rest))
      = some (digits, exponentText e ++ rest) := by
  have hnext := head_exponentText (e := e) hrest
  cases digits with
  | nil =>
    rw [fractionText, List.nil_append, readFraction.eq_def]
    split
    · next heq => rw [heq] at hnext; exact absurd rfl (hnext dot rfl).2
    · rfl
  | cons d digits =>
    have hread := readDigits_append hdigits fun c hc => (hnext c hc).1
    have hdot : readFraction (fractionText (d :: digits) ++ (exponentText e ++ rest))
        = if (readDigits (d :: digits ++ (exponentText e ++ rest))).1.isEmpty then none
          else some (readDigits (d :: digits ++ (exponentText e ++ rest))) := rfl
    rw [hdot, hread]
    rfl

/-- An exponent is read up to the end of the value. -/
theorem readExponent_exponentText {e : Option Int} {rest : Text} (hrest : endsValue rest = true) :
    readExponent (exponentText e ++ rest) = some (e.getD 0, e.isSome, rest) := by
  cases e with
  | none =>
    cases rest with
    | nil => rfl
    | cons c rest =>
      have hmark := (not_numeric_of_endsValue hrest).2.2
      simp only [isExponentMark, Bool.or_eq_false_iff, beq_eq_false_iff_ne] at hmark
      rw [exponentText, List.nil_append, readExponent.eq_def]
      dsimp only
      rw [if_neg (by simp [hmark])]
      rfl
  | some e =>
    have hdigits : ∀ negative, readExponentDigits negative (Text.ofNat e.natAbs ++ rest)
        = some (if negative then -(e.natAbs : Int) else (e.natAbs : Int), rest) := by
      intro negative
      have hstop : ∀ c, rest.head? = some c → c.isDigit = false := by
        intro c hc
        cases rest with
        | nil => cases hc
        | cons d rest => cases hc; exact (not_numeric_of_endsValue hrest).1
      rw [readExponentDigits, readDigits_append (Text.all_isDigit_ofNat e.natAbs) hstop]
      simp [Text.ofNat_ne_nil, Text.digitsValue_ofNat]
    by_cases he : e < 0
    · have hsign : readExponent (exponentText (some e) ++ rest)
          = (readExponentDigits true (Text.ofNat e.natAbs ++ rest)).map fun (n, rest) =>
            (n, true, rest) := by
        rw [exponentText, if_pos he, List.append_assoc]
        rfl
      rw [hsign, hdigits true]
      simp only [if_true, Option.map_some, Option.getD_some, Option.isSome_some]
      congr 2
      omega
    · have hsign : readExponent (exponentText (some e) ++ rest)
          = (readExponentDigits false (Text.ofNat e.natAbs ++ rest)).map fun (n, rest) =>
            (n, true, rest) := by
        rw [exponentText, if_neg he, List.append_assoc]
        rfl
      rw [hsign, hdigits false]
      simp only [Bool.false_eq_true, if_false, Option.map_some, Option.getD_some,
        Option.isSome_some]
      congr 2
      omega

/-- A numeral is read part by part. -/
theorem readUnsigned_parts (negative : Bool) {whole fraction : Text} {e : Option Int} {rest : Text}
    (hwhole : whole.all CodeUnit.isDigit = true) (hne : whole ≠ [])
    (hzero : whole.head? = some CodeUnit.zero → whole.length = 1)
    (hfraction : fraction.all CodeUnit.isDigit = true) (hrest : endsValue rest = true) :
    readUnsigned negative (whole ++ (fractionText fraction ++ (exponentText e ++ rest)))
      = some (⟨negative, Text.digitsValue (whole ++ fraction), e.getD 0 - fraction.length,
          fraction.isEmpty && e.isNone⟩, rest) := by
  have hproper : ¬(whole.isEmpty = true ∨ (whole.head? = some CodeUnit.zero ∧ 1 < whole.length)) := by
    rintro (h | ⟨h, hlength⟩)
    · exact hne (List.isEmpty_iff.mp h)
    · have := hzero h
      omega
  rw [readUnsigned, readDigits_append hwhole (head_fractionText hrest)]
  dsimp only
  rw [if_neg hproper, readFraction_fractionText hfraction hrest, Option.bind_eq_bind,
    Option.bind_some]
  dsimp only
  rw [readExponent_exponentText hrest, Option.bind_eq_bind, Option.bind_some]
  cases e <;> rfl

/-! ### Numbers -/

/-- The sign of a numeral as written. -/
def signText (negative : Bool) : Text := if negative then "-" else ""

/-- Without a minus sign the numeral begins at once. -/
theorem readNumeral_of_isDigit {c : CodeUnit} (hc : c.isDigit = true) (t : Text) :
    readNumeral (c :: t) = readUnsigned false (c :: t) := by
  rw [readNumeral.eq_def]
  split
  · next heq => cases heq; exact absurd hc (by decide)
  · rfl

/-- A sign, a whole part without a superfluous zero, a fraction and an exponent read as a number. -/
theorem reads_number_parts (negative : Bool) {whole fraction : Text} (e : Option Int)
    (hwhole : whole.all CodeUnit.isDigit = true) (hne : whole ≠ [])
    (hzero : whole.head? = some CodeUnit.zero → whole.length = 1)
    (hfraction : fraction.all CodeUnit.isDigit = true) :
    Reads (signText negative ++ (whole ++ (fractionText fraction ++ exponentText e)))
      (number ⟨negative, Text.digitsValue (whole ++ fraction), e.getD 0 - fraction.length,
        fraction.isEmpty && e.isNone⟩) := by
  have hread : ∀ rest, endsValue rest = true →
      readUnsigned negative (whole ++ (fractionText fraction ++ exponentText e) ++ rest) = some
        (⟨negative, Text.digitsValue (whole ++ fraction), e.getD 0 - fraction.length,
          fraction.isEmpty && e.isNone⟩, rest) := by
    intro rest hrest
    rw [List.append_assoc, List.append_assoc]
    exact readUnsigned_parts negative hwhole hne hzero hfraction hrest
  cases negative with
  | true => exact reads_number (c := minus) rfl hread
  | false =>
    cases whole with
    | nil => exact absurd rfl hne
    | cons c whole =>
      have hc : c.isDigit = true := List.all_eq_true.mp hwhole c List.mem_cons_self
      refine reads_number (c := c) ?_ ?_
      · rw [beginsNumeral, hc, Bool.or_true]
      · intro rest hrest
        rw [List.cons_append, readNumeral_of_isDigit hc]
        exact hread rest hrest

end SwiftLens.Json

namespace SwiftLens

/-- An integer as a numeral, digit for digit. -/
def Numeral.ofInt (n : Int) : Numeral := ⟨decide (n < 0), n.natAbs, 0, true⟩

/-- The decimal text of an integer reads as that integer. -/
theorem Json.reads_integer (n : Int) : Json.Reads (Text.ofInt n) (.number (Numeral.ofInt n)) := by
  have hzero : (Text.ofNat n.natAbs).head? = some CodeUnit.zero → (Text.ofNat n.natAbs).length = 1 := by
    intro h
    by_cases hn : n.natAbs = 0
    · rw [hn]
      rfl
    · exact absurd h (Text.head?_ofNat_ne_zero hn)
  have htext : Text.ofInt n = Json.signText (decide (n < 0)) ++ (Text.ofNat n.natAbs
      ++ (Json.fractionText [] ++ Json.exponentText none)) := by
    rw [Text.ofInt, Json.fractionText, Json.exponentText, List.append_nil, List.append_nil]
    by_cases hn : n < 0
    · rw [if_pos hn, decide_eq_true hn]
      rfl
    · rw [if_neg hn, decide_eq_false hn]
      rfl
  have hfraction : List.all ([] : Text) CodeUnit.isDigit = true := rfl
  have hreads := Json.reads_number_parts (decide (n < 0)) none
    (Text.all_isDigit_ofNat n.natAbs) (Text.ofNat_ne_nil _) hzero hfraction
  rw [htext]
  rw [List.append_nil, Text.digitsValue_ofNat] at hreads
  exact hreads

end SwiftLens
