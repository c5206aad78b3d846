import SwiftLens.Number.Arithmetic
import SwiftLens.Proofs.Number.ReadBack

/-!
# Whole numbers as doubles

A natural number of at most 53 bits is a double of its own: `Double.toInt?_ofNat` finds it again in the
double that is nearest to it. `Double.asWritten_of_ne` says that the only double whose text denotes
another one is the negative zero.
-/

namespace SwiftLens.Double

/-! ### Fields -/

/-- The bits of a double are those of its sign, its exponent and its fraction. -/
theorem toNat_ofFields (negative : Bool) {biased fraction : ℕ} (hb : biased < 2048)
    (hf : fraction < 2 ^ 52) :
    (ofFields negative biased fraction).bits.toNat
      = (if negative then 2 ^ 63 else 0) + biased * 2 ^ 52 + fraction := by
  rw [ofFields, signWeight_eq, hiddenWeight_eq]
  refine UInt64.toNat_ofNat_of_lt' ?_
  rw [UInt64.size]
  split <;> omega

/-- The exponent of a double that is put together from its fields. -/
theorem biased_ofFields (negative : Bool) {biased fraction : ℕ} (hb : biased < 2048)
    (hf : fraction < 2 ^ 52) : (ofFields negative biased fraction).biased = biased := by
  rw [Double.biased, toNat_ofFields negative hb hf, hiddenWeight_eq]
  split <;> omega

/-- The fraction of a double that is put together from its fields. -/
theorem fraction_ofFields (negative : Bool) {biased fraction : ℕ} (hb : biased < 2048)
    (hf : fraction < 2 ^ 52) : (ofFields negative biased fraction).fraction = fraction := by
  rw [Double.fraction, toNat_ofFields negative hb hf, hiddenWeight_eq]
  split <;> omega

/-- The sign of a double that is put together from its fields. -/
theorem isNegative_ofFields (negative : Bool) {biased fraction : ℕ} (hb : biased < 2048)
    (hf : fraction < 2 ^ 52) : (ofFields negative biased fraction).isNegative = negative := by
  rw [isNegative, toNat_ofFields negative hb hf, signWeight_eq]
  cases negative
  · exact decide_eq_false (by simp only [Bool.false_eq_true, if_false]; omega)
  · exact decide_eq_true (by simp only [if_true]; omega)

/-- A double other than the negative zero is the double that its text denotes. -/
theorem asWritten_of_ne {x : Double} (h : x ≠ zero true) : x.asWritten = x := by
  unfold asWritten
  split
  · next hzero =>
    simp only [isZero, Bool.and_eq_true, beq_iff_eq] at hzero
    have hparts := x.ofFields_parts
    rw [hzero.1, hzero.2] at hparts
    cases hneg : x.isNegative with
    | false =>
      rw [hneg] at hparts
      exact hparts
    | true =>
      rw [hneg] at hparts
      exact absurd hparts.symm h
  · rfl

/-! ### Natural numbers -/

/-- The double of a significand of 53 bits with an exponent that is not positive. -/
theorem toInt?_ofScaled {m : ℕ} {e : ℤ} (hlow : 2 ^ 52 ≤ m) (hhigh : m < 2 ^ 53) (he : -1074 ≤ e)
    (he' : e ≤ 0) {n : ℕ} (hm : m = n * 2 ^ e.natAbs) :
    (ofScaled false m e).isFinite = true ∧ (ofScaled false m e).toInt? = some (n : ℤ) := by
  have hb : (e + 1075).toNat < 2048 := by omega
  have hf : m - 2 ^ 52 < 2 ^ 52 := by omega
  have hfields : ofScaled false m e = ofFields false (e + 1075).toNat (m - 2 ^ 52) := by
    rw [ofScaled, hiddenWeight_eq, if_neg (by omega), if_neg (by omega)]
    dsimp only
    rw [if_neg (by omega)]
  have hbiased := biased_ofFields false hb hf
  have hfinite : (ofFields false (e + 1075).toNat (m - 2 ^ 52)).isFinite = true := by
    rw [isFinite, hbiased, bne_iff_ne]
    omega
  have hexponent : (ofFields false (e + 1075).toNat (m - 2 ^ 52)).exponent = e := by
    rw [exponent, hbiased]
    omega
  have hsignificand : (ofFields false (e + 1075).toNat (m - 2 ^ 52)).significand = m := by
    rw [significand, hbiased, fraction_ofFields false hb hf, hiddenWeight_eq, if_neg (by omega)]
    omega
  have hpow : 0 < 2 ^ e.natAbs := by positivity
  refine ⟨hfields ▸ hfinite, ?_⟩
  rw [hfields, toInt?, if_pos hfinite, hexponent, hsignificand, isNegative_ofFields false hb hf]
  dsimp only
  rw [Nat.shiftLeft_eq, Nat.shiftLeft_eq, one_mul, hm]
  by_cases hzero : 0 ≤ e
  · obtain rfl : e = 0 := by omega
    simp
  · rw [if_neg hzero, if_pos (Nat.mul_mod_left n _), Nat.mul_div_cancel n hpow]
    rfl

/-- A natural number of at most 53 bits is rounded at an exponent that is not positive, and not at the
least one. -/
theorem InBinade.exponent_of_natural {n : ℕ} {e : ℤ} (h : InBinade n e) (hzero : n ≠ 0)
    (hlt : n < 2 ^ 53) : -53 < e ∧ e ≤ 0 := by
  have hn : (1 : ℚ) ≤ n := by exact_mod_cast Nat.one_le_iff_ne_zero.mpr hzero
  have hn' : (n : ℚ) < 2 ^ 53 := by exact_mod_cast hlt
  have hbelow := h.below
  have hlow : -53 < e := by
    by_contra hle
    have hpow : (2 : ℚ) ^ e ≤ 2 ^ (-53 : ℤ) := zpow_le_zpow_right₀ (by norm_num) (by omega)
    have hsmall : (2 : ℚ) ^ 53 * 2 ^ (-53 : ℤ) = 1 := by norm_num
    linarith
  refine ⟨hlow, ?_⟩
  by_contra hpos
  have hnormal := h.normal.resolve_left (by omega)
  have hpow : (2 : ℚ) ^ (1 : ℤ) ≤ 2 ^ e := zpow_le_zpow_right₀ (by norm_num) (by omega)
  rw [zpow_one] at hpow
  linarith

/-- At such an exponent a natural number is a whole number of units. -/
theorem natural_eq_units (n : ℕ) {e : ℤ} (he : e ≤ 0) :
    ((n * 2 ^ e.natAbs : ℕ) : ℚ) * 2 ^ e = n := by
  have habs : (2 : ℚ) ^ e.natAbs * 2 ^ e = 1 := by
    have hsum : (e.natAbs : ℤ) + e = 0 := by omega
    rw [← zpow_natCast, ← zpow_add₀ (by norm_num), hsum, zpow_zero]
  push_cast
  rw [mul_assoc, habs, mul_one]

/-- A natural number of at most 53 bits is finite as a double, and is found in it again. -/
theorem toInt?_ofNat {n : ℕ} (h : n ≤ 2 ^ 53) :
    (ofNat n).isFinite = true ∧ (ofNat n).toInt? = some (n : ℤ) := by
  by_cases hzero : n = 0
  · subst hzero
    exact ⟨rfl, rfl⟩
  by_cases htop : n = 2 ^ 53
  · subst htop
    exact ⟨by decide +kernel, by decide +kernel⟩
  obtain ⟨e, hbinade, heq⟩ := ofRatio_eq false hzero one_pos
  rw [Nat.cast_one, div_one] at hbinade
  obtain ⟨hlow, hhigh⟩ := hbinade.exponent_of_natural hzero (by omega)
  have hunits := natural_eq_units n hhigh
  have hpos : (0 : ℚ) < 2 ^ e := zpow_pos (by norm_num) _
  have hquotient : scaledQuotient n 1 e = n * 2 ^ e.natAbs := by
    refine scaledQuotient_eq one_pos ?_ ?_ fun _ => ⟨?_, ?_⟩ <;>
      rw [Nat.cast_one, div_one] <;> linarith
  have hm : 2 ^ 52 ≤ n * 2 ^ e.natAbs ∧ n * 2 ^ e.natAbs < 2 ^ 53 := by
    have hnormal := hbinade.normal.resolve_left (by omega)
    have hbelow := hbinade.below
    rw [← hunits] at hnormal hbelow
    have hle := le_of_mul_le_mul_right hnormal hpos
    have hlt := lt_of_mul_lt_mul_right hbelow hpos.le
    exact ⟨by exact_mod_cast hle, by exact_mod_cast hlt⟩
  rw [ofNat, heq, hquotient]
  exact toInt?_ofScaled hm.1 hm.2 (by omega) hhigh rfl

/-! ### Units -/

/-- A double that is an integer is finite, and its significand, shifted by its exponent, is that integer. -/
theorem significand_of_toInt? {x : Double} {n : ℤ} (h : x.toInt? = some n) :
    x.isFinite = true ∧ ∃ m : ℕ, n = (if x.isNegative then -(m : ℤ) else m) ∧
      x.significand * 2 ^ (x.exponent + unitPlaces).toNat = m * 2 ^ unitPlaces := by
  have hleast : -(unitPlaces : ℤ) ≤ x.exponent := x.le_exponent
  unfold toInt? at h
  split at h
  case isFalse => cases h
  case isTrue hfinite =>
    obtain ⟨_, hvalue, rfl⟩ := Option.map_eq_some_iff.mp h
    obtain ⟨m, hm, hcast⟩ := Option.bind_eq_some_iff.mp hvalue
    obtain rfl := Option.some.inj hcast
    refine ⟨hfinite, m, rfl, ?_⟩
    split at hm
    case isTrue hexponent =>
      obtain rfl := Option.some.inj hm
      have hsum : (x.exponent + unitPlaces).toNat = x.exponent.natAbs + unitPlaces := by omega
      rw [Nat.shiftLeft_eq, hsum, pow_add, mul_assoc]
    case isFalse hexponent =>
      have hsum : unitPlaces = x.exponent.natAbs + (x.exponent + unitPlaces).toNat := by omega
      have hpow := congrArg (2 ^ · : ℕ → ℕ) hsum
      rw [pow_add] at hpow
      split at hm
      case isFalse => cases hm
      case isTrue hwhole =>
        obtain rfl := Option.some.inj hm
        rw [Nat.shiftLeft_eq, one_mul] at hwhole ⊢
        rw [hpow, ← mul_assoc, Nat.div_mul_cancel (Nat.dvd_of_mod_eq_zero hwhole)]

/-- A whole number in units of the least positive double. -/
theorem units_of_toInt? {x : Double} {n : ℤ} (h : x.toInt? = some n) : x.units = n * 2 ^ unitPlaces := by
  obtain ⟨-, m, rfl, hunits⟩ := significand_of_toInt? h
  rw [units, Nat.shiftLeft_eq, hunits]
  split <;> push_cast
  · rw [neg_mul]
  · rfl

/-- A number that a double can count is a number. -/
theorem isNaN_ofNat {n : ℕ} (h : n ≤ 2 ^ 53) : (ofNat n).isNaN = false := by
  have hfinite := (toInt?_ofNat h).1
  rw [isFinite, bne_iff_ne] at hfinite
  rw [isNaN, beq_false_of_ne hfinite, Bool.false_and]

/-- Doubles that are numbers are compared by their rank. -/
theorem le_eq_decide {x y : Double} (hx : x.isNaN = false) (hy : y.isNaN = false) :
    x.le y = decide (x.rank ≤ y.rank) := by
  rw [le, hx, hy, Bool.not_false, Bool.true_and, Bool.true_and]

/-- The rank of a number that a double can count, in units of the least double. -/
theorem rank_ofNat {n : ℕ} (h : n ≤ 2 ^ 53) : (ofNat n).rank = (n * 2 ^ unitPlaces : ℕ) := by
  obtain ⟨hfinite, hint⟩ := toInt?_ofNat h
  rw [rank, if_pos hfinite, units_of_toInt? hint]
  push_cast
  rfl

end SwiftLens.Double
