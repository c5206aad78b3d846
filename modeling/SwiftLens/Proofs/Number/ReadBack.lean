import SwiftLens.Proofs.Json.Numerals
import SwiftLens.Proofs.Number.Shortest

/-!
# Written numbers read back

A finite double is written as its shortest decimal, and that text is a numeral of JSON
(`Double.reads_text`). The numeral denotes the double it was written for: `toDouble_numeral`. The two
zeros are written alike, so that the negative one is read as the positive one; every other double is
read as itself, bit for bit.

A decimal is laid out in four ways, by where its point lies. `Decimal.numeral` says which numeral that
is: with all the zeros written out it is an integer, otherwise it keeps its digits and its scale.
-/

namespace SwiftLens

open NumberFormat

namespace Decimal

/-! ### The text of the digits -/

variable {d : Decimal}

/-- The text of the digits has one unit for each digit. -/
theorem IsNormal.length_digitText (h : IsNormal d) :
    (digitText d.digits).length = d.digits.length := by
  rw [digitText_eq_map h.lt_ten, List.length_map]

/-- The text of the digits is made of digits. -/
theorem IsNormal.all_isDigit (h : IsNormal d) :
    (digitText d.digits).all CodeUnit.isDigit = true := by
  rw [digitText_eq_map h.lt_ten, List.all_eq_true]
  intro c hc
  obtain ⟨n, hn, rfl⟩ := List.mem_map.mp hc
  exact CodeUnit.isDigit_ofDigit (h.lt_ten n hn)

/-- The first digits are the beginning of the text. -/
theorem IsNormal.digitText_take (h : IsNormal d) (k : ℕ) :
    digitText (d.digits.take k) = (digitText d.digits).take k := by
  rw [digitText_eq_map h.lt_ten, digitText_eq_map fun n hn => h.lt_ten n (List.mem_of_mem_take hn),
    List.map_take]

/-- The other digits are the rest of the text. -/
theorem IsNormal.digitText_drop (h : IsNormal d) (k : ℕ) :
    digitText (d.digits.drop k) = (digitText d.digits).drop k := by
  rw [digitText_eq_map h.lt_ten, digitText_eq_map fun n hn => h.lt_ten n (List.mem_of_mem_drop hn),
    List.map_drop]

/-- A row of zeros is made of digits. -/
theorem all_isDigit_zeros (n : ℕ) : (zeros n).all CodeUnit.isDigit = true := by
  rw [List.all_eq_true]
  intro c hc
  rw [List.eq_of_mem_replicate hc]
  rfl

/-! ### The numeral of a decimal -/

/-- The numeral that a decimal is written as. -/
def numeral (negative : Bool) (d : Decimal) : Numeral :=
  if 0 ≤ d.scale ∧ d.point ≤ plain.maxPoint then ⟨negative, d.value * 10 ^ d.scale.toNat, 0, true⟩
  else ⟨negative, d.value, d.scale, false⟩

/-- The text of the digits is not empty. -/
theorem IsNormal.digitText_ne_nil (h : IsNormal d) : digitText d.digits ≠ [] := by
  rw [digitText_eq_map h.lt_ten]
  simpa using h.ne_nil

/-- The digits followed by zeros, when the point lies behind them. -/
theorem IsNormal.reads_whole (h : IsNormal d) (negative : Bool) (n : ℕ) :
    Json.Reads (Json.signText negative ++ (digitText d.digits ++ zeros n))
      (.number ⟨negative, d.value * 10 ^ n, 0, true⟩) := by
  have hdigits : (digitText d.digits ++ zeros n).all CodeUnit.isDigit = true := by
    rw [List.all_append, h.all_isDigit, all_isDigit_zeros, Bool.and_self]
  have hne : digitText d.digits ++ zeros n ≠ [] := by
    simp [h.digitText_ne_nil]
  have hzero : (digitText d.digits ++ zeros n).head? = some CodeUnit.zero →
      (digitText d.digits ++ zeros n).length = 1 := by
    rw [List.head?_append_of_ne_nil _ h.digitText_ne_nil]
    exact fun hhead => absurd hhead h.head_ne_zero
  have hvalue : Text.digitsValue (digitText d.digits ++ zeros n) = d.value * 10 ^ n := by
    rw [Text.digitsValue_append, digitsValue_zeros, zeros, List.length_replicate]
    rfl
  have hfraction : List.all ([] : Text) CodeUnit.isDigit = true := rfl
  have hreads := Json.reads_number_parts negative none hdigits hne hzero hfraction
  rw [List.append_nil, hvalue] at hreads
  simpa [Json.fractionText, Json.exponentText] using hreads

/-- The digits with the point between them or with an exponent. -/
theorem IsNormal.reads_split (h : IsNormal d) (negative : Bool) {k : ℕ} (hk : 0 < k)
    (hk' : k ≤ d.digits.length) (e : Option ℤ) (he : k < d.digits.length ∨ e.isSome = true) :
    Json.Reads (Json.signText negative ++ (digitText (d.digits.take k)
        ++ (Json.fractionText (digitText (d.digits.drop k)) ++ Json.exponentText e)))
      (.number ⟨negative, d.value, e.getD 0 + k - d.digits.length, false⟩) := by
  have hall := List.all_eq_true.mp h.all_isDigit
  have hwhole : ((digitText d.digits).take k).all CodeUnit.isDigit = true :=
    List.all_eq_true.mpr fun c hc => hall c (List.mem_of_mem_take hc)
  have hfraction : ((digitText d.digits).drop k).all CodeUnit.isDigit = true :=
    List.all_eq_true.mpr fun c hc => hall c (List.mem_of_mem_drop hc)
  have hne : (digitText d.digits).take k ≠ [] := by
    simp [h.digitText_ne_nil, hk.ne']
  have hzero : ((digitText d.digits).take k).head? = some CodeUnit.zero →
      ((digitText d.digits).take k).length = 1 := by
    rw [List.head?_take, if_neg hk.ne']
    exact fun hhead => absurd hhead h.head_ne_zero
  have hlength : ((digitText d.digits).drop k).length = d.digits.length - k := by
    rw [List.length_drop, h.length_digitText]
  have hscale : e.getD 0 - ((digitText d.digits).drop k).length
      = e.getD 0 + k - d.digits.length := by
    rw [hlength]
    omega
  have hinteger : (((digitText d.digits).drop k).isEmpty && e.isNone) = false := by
    rcases he with hlt | hsome
    · rw [List.isEmpty_eq_false_iff.mpr (List.ne_nil_of_length_pos (by omega)), Bool.false_and]
    · rw [Option.isNone_eq_false_iff.mpr hsome, Bool.and_false]
  have hreads := Json.reads_number_parts negative e hwhole hne hzero hfraction
  rw [List.take_append_drop, hscale, hinteger, ← h.digitText_take, ← h.digitText_drop] at hreads
  exact hreads

/-- The digits behind a zero, a point and more zeros. -/
theorem IsNormal.reads_small (h : IsNormal d) (negative : Bool) (n : ℕ) :
    Json.Reads (Json.signText negative ++ ("0." ++ zeros n ++ digitText d.digits))
      (.number ⟨negative, d.value, -((n : ℤ) + d.digits.length), false⟩) := by
  have hfraction : (zeros n ++ digitText d.digits).all CodeUnit.isDigit = true := by
    rw [List.all_append, h.all_isDigit, all_isDigit_zeros, Bool.and_self]
  have hvalue : Text.digitsValue ([CodeUnit.zero] ++ (zeros n ++ digitText d.digits)) = d.value := by
    have hzeros : [CodeUnit.zero] ++ zeros n = zeros (n + 1) := rfl
    rw [← List.append_assoc, hzeros, Text.digitsValue_append, digitsValue_zeros, zero_mul, zero_add]
    rfl
  have hwhole : [CodeUnit.zero].all CodeUnit.isDigit = true := rfl
  have hreads := Json.reads_number_parts negative none hwhole (by simp) (fun _ => rfl) hfraction
  have hdot : Json.fractionText (zeros n ++ digitText d.digits)
      = CodeUnit.dot :: (zeros n ++ digitText d.digits) := by
    unfold Json.fractionText
    split
    · next hnil => exact absurd (List.append_eq_nil_iff.mp hnil).2 h.digitText_ne_nil
    · rfl
  have hlength : (zeros n ++ digitText d.digits).length = n + d.digits.length := by
    rw [List.length_append, h.length_digitText, zeros, List.length_replicate]
  have hempty : (zeros n ++ digitText d.digits).isEmpty = false := by
    simp [h.digitText_ne_nil]
  have hscale : (none : Option ℤ).getD 0 - (n + d.digits.length : ℕ)
      = -((n : ℤ) + d.digits.length) := by
    simp only [Option.getD_none]
    omega
  have htext : "0." ++ zeros n ++ digitText d.digits
      = [CodeUnit.zero] ++ (CodeUnit.dot :: (zeros n ++ digitText d.digits) ++ Json.exponentText none) := by
    rw [Json.exponentText, List.append_nil, List.append_assoc]
    rfl
  rw [hvalue, hdot, hlength, hempty, hscale, ← htext] at hreads
  exact hreads

/-- A numeral that is no integer keeps the digits and the scale of its decimal. -/
theorem numeral_of_not_whole (negative : Bool) (hwhole : ¬(0 ≤ d.scale ∧ d.point ≤ plain.maxPoint)) :
    d.numeral negative = ⟨negative, d.value, d.scale, false⟩ := by
  rw [numeral, if_neg hwhole]

/-- A fraction is written after a point, unless it has no digits. -/
theorem fractionText_eq (t : Text) : Json.fractionText t = if t = [] then [] else CodeUnit.dot :: t := by
  cases t <;> rfl

/-- A printed decimal reads as its numeral. -/
theorem IsNormal.reads_decimal (h : IsNormal d) (negative : Bool) :
    Json.Reads (Json.signText negative ++ plain.decimal d) (.number (d.numeral negative)) := by
  have hcount : 0 < d.digits.length := List.length_pos_iff.mpr h.ne_nil
  have hmin : plain.minPoint = -5 := rfl
  have hmax : plain.maxPoint = 21 := rfl
  unfold NumberFormat.decimal
  dsimp only
  rw [hmin, hmax]
  by_cases hplain : -5 ≤ d.point ∧ d.point ≤ 21
  · rw [if_pos hplain]
    by_cases hwhole : (d.digits.length : ℤ) ≤ d.point
    · -- The point lies behind the digits.
      have hnumeral : d.numeral negative
          = ⟨negative, d.value * 10 ^ (d.point - d.digits.length).toNat, 0, true⟩ := by
        rw [numeral, if_pos ⟨by unfold scale; omega, hplain.2⟩]
        rfl
      rw [if_pos hwhole, hnumeral]
      exact h.reads_whole negative _
    rw [if_neg hwhole, numeral_of_not_whole negative (by unfold scale; omega)]
    by_cases hsplit : 0 < d.point
    · -- The point lies between the digits.
      have hreads := h.reads_split negative (k := d.point.toNat) (by omega) (by omega) none
        (Or.inl (by omega))
      have hscale : (none : Option ℤ).getD 0 + d.point.toNat - d.digits.length = d.scale := by
        rw [Option.getD_none, scale]
        omega
      have hne : digitText (d.digits.drop d.point.toNat) ≠ [] := by
        rw [h.digitText_drop, ne_eq, List.drop_eq_nil_iff, h.length_digitText]
        omega
      rw [hscale, fractionText_eq, if_neg hne, Json.exponentText, List.append_nil] at hreads
      rw [if_pos hsplit, List.append_assoc (digitText _)]
      exact hreads
    · -- The point lies before the digits.
      have hscale : -((d.point.natAbs : ℤ) + d.digits.length) = d.scale := by
        unfold scale
        omega
      rw [if_neg hsplit, ← hscale]
      exact h.reads_small negative d.point.natAbs
  · -- The point lies far away.
    have hreads := h.reads_split negative (k := 1) (by omega) (by omega) (some (d.point - 1))
      (Or.inr rfl)
    have hscale : (some (d.point - 1)).getD 0 + (1 : ℕ) - d.digits.length = d.scale := by
      rw [Option.getD_some, scale]
      omega
    have hfraction : Json.fractionText (digitText (d.digits.drop 1))
        = if 1 < (d.digits.length : ℤ) then "." ++ digitText (d.digits.drop 1) else "" := by
      have hiff : digitText (d.digits.drop 1) = [] ↔ ¬1 < (d.digits.length : ℤ) := by
        rw [h.digitText_drop, List.drop_eq_nil_iff, h.length_digitText]
        omega
      rw [fractionText_eq]
      by_cases hlt : 1 < (d.digits.length : ℤ)
      · rw [if_pos hlt, if_neg fun hnil => hiff.mp hnil hlt]
        rfl
      · rw [if_neg hlt, if_pos (hiff.mpr hlt)]
        rfl
    rw [hscale, hfraction, Json.exponentText, ← List.append_assoc (digitText _),
      ← List.append_assoc (digitText _ ++ _)] at hreads
    rw [if_neg hplain, numeral_of_not_whole negative (by unfold scale; omega)]
    exact hreads

end Decimal

namespace Double

/-! ### The numeral of a double -/

/-- The numeral that a finite double is written as. The two zeros are written alike. -/
def numeral (x : Double) : Numeral :=
  if x.isZero then ⟨false, 0, 0, true⟩ else (Decimal.shortest x).numeral x.isNegative

/-- The double that the text of a double denotes: the positive zero for both zeros, and otherwise the
double itself. -/
def asWritten (x : Double) : Double := if x.isZero then zero false else x

/-- The text of a finite double is a numeral. -/
theorem reads_text {x : Double} (hx : x.isFinite = true) :
    Json.Reads x.text (.number x.numeral) := by
  have hnan : x.isNaN = false := by
    simp only [isFinite, bne_iff_ne] at hx
    simp [isNaN, hx]
  unfold text NumberFormat.text numeral
  dsimp only
  rw [hnan, hx]
  by_cases hzero : x.isZero = true
  · rw [hzero]
    have hsign : (x.isNegative && (plain.signedZero || !true)) = false := by
      rw [Bool.and_eq_false_iff]
      exact Or.inr rfl
    rw [hsign]
    exact Json.reads_integer 0
  · rw [Bool.not_eq_true] at hzero
    rw [hzero]
    have hsign : (x.isNegative && (plain.signedZero || !false)) = x.isNegative := by
      rw [Bool.not_false, Bool.or_true, Bool.and_true]
    rw [hsign]
    exact (Decimal.shortest_spec hx hzero).1.reads_decimal x.isNegative

/-- The numeral of a decimal denotes its digits at their scale. -/
theorem toDouble_decimal {x : Double} {d : Decimal} (negative : Bool) (hx : x.isFinite = true)
    (hzero : x.isZero = false) (h : RoundsTo x (d.value * 10 ^ d.scale)) :
    (d.numeral negative).toDouble = ofFields negative x.biased x.fraction := by
  unfold Decimal.numeral
  split
  · next hwhole =>
    have hvalue : ((d.value * 10 ^ d.scale.toNat : ℕ) : ℚ) * 10 ^ (0 : ℤ)
        = d.value * 10 ^ d.scale := by
      have habs : d.scale.toNat = d.scale.natAbs := by omega
      rw [zpow_of_nonneg 10 hwhole.1, habs]
      push_cast
      ring
    rw [← hvalue] at h
    exact ofDecimal_of_roundsTo negative hx hzero h
  · exact ofDecimal_of_roundsTo negative hx hzero h

/-- A finite double is read back from its text, the negative zero as the positive one. -/
theorem toDouble_numeral {x : Double} (hx : x.isFinite = true) :
    x.numeral.toDouble = x.asWritten := by
  unfold numeral asWritten
  split
  · rfl
  · next hzero =>
    rw [Bool.not_eq_true] at hzero
    rw [toDouble_decimal x.isNegative hx hzero (Decimal.shortest_spec hx hzero).2, ofFields_parts]

end Double

end SwiftLens
