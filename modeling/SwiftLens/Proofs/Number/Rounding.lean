import Mathlib
import SwiftLens.Number.Double

/-!
# Rounding to doubles

`RoundsTo x q` says that the rational `q` lies in the interval of those that round to the magnitude of
the double `x`: between the points halfway to its neighbours, which belong to the interval when the
significand of `x` is even. `ofRatio_of_roundsTo` proves that the rounded division of `Double.ofRatio`
does so: a ratio in the interval of a finite `x` becomes `x`, up to the sign that is asked for.

The division works at one exponent, found from the binary logarithms of the two numbers and corrected by
one. `InBinade` says which exponent that is, and there is only one (`InBinade.unique`). Either the ratio
lies in the binade of `x`, and the quotient is rounded to the significand of `x`; or `x` is a power of
two and the ratio lies just below it, in the binade underneath, and the quotient is rounded up to the
next power of two.
-/

namespace SwiftLens.Double

/-! ### Powers as whole numbers -/

/-- A power with a positive exponent is a whole one. -/
theorem zpow_of_nonneg (b : ℚ) {e : ℤ} (h : 0 ≤ e) : b ^ e = b ^ e.natAbs := by
  rw [← zpow_natCast]
  congr 1
  omega

/-- A power with a negative exponent is one over a whole one. -/
theorem zpow_of_neg (b : ℚ) {e : ℤ} (h : e < 0) : b ^ e = (b ^ e.natAbs)⁻¹ := by
  rw [← zpow_natCast, ← zpow_neg]
  congr 1
  omega

/-! ### The parts of a double -/

/-- The sign bit is the 64th. -/
theorem signWeight_eq : signWeight = 2 ^ 63 := by decide

/-- There are 52 bits below the exponent. -/
theorem hiddenWeight_eq : hiddenWeight = 2 ^ 52 := by decide

/-- The exponent bits are eleven. -/
theorem biased_lt (x : Double) : x.biased < 2048 := Nat.mod_lt _ (by norm_num)

/-- The fraction bits are 52. -/
theorem fraction_lt (x : Double) : x.fraction < 2 ^ 52 := by
  rw [fraction, hiddenWeight_eq]
  exact Nat.mod_lt _ (by norm_num)

/-- A double is put together from its parts. -/
theorem ofFields_parts (x : Double) : ofFields x.isNegative x.biased x.fraction = x := by
  have hbits := x.bits.toNat_lt
  have hsum : (if x.isNegative then signWeight else 0) + x.biased * hiddenWeight + x.fraction
      = x.bits.toNat := by
    simp only [isNegative, biased, fraction, decide_eq_true_eq, signWeight_eq, hiddenWeight_eq]
    split <;> omega
  rw [ofFields, hsum, UInt64.ofNat_toNat]

/-- The significand has at most 53 bits. -/
theorem significand_lt (x : Double) : x.significand < 2 ^ 53 := by
  have := x.fraction_lt
  rw [significand, hiddenWeight_eq]
  split <;> omega

/-- A finite double has an exponent of at least that of the least double. -/
theorem le_exponent (x : Double) : -1074 ≤ x.exponent := by
  unfold exponent
  omega

/-! ### The interval of a double -/

/-- Two to the power of the exponent. -/
def unit (x : Double) : ℚ := 2 ^ x.exponent

/-- The unit in the last place is positive. -/
theorem unit_pos (x : Double) : 0 < x.unit := zpow_pos (by norm_num) _

/-- The magnitude of a finite double. -/
def magnitude (x : Double) : ℚ := x.significand * x.unit

/-- The lower end of the interval of a double, in units. Below a power of two the doubles lie twice as
close. -/
def lowEnd (x : Double) : ℚ :=
  if x.fraction = 0 ∧ 1 < x.biased then x.significand - 1 / 4 else x.significand - 1 / 2

/-- The upper end of the interval of a double, in units. -/
def highEnd (x : Double) : ℚ := x.significand + 1 / 2

/-- Whether a rational lies in the interval of a double. -/
def RoundsTo (x : Double) (q : ℚ) : Prop :=
  if x.significand % 2 = 0 then x.lowEnd * x.unit ≤ q ∧ q ≤ x.highEnd * x.unit
  else x.lowEnd * x.unit < q ∧ q < x.highEnd * x.unit

/-- The ends bound the interval, whether or not they belong to it. -/
theorem RoundsTo.bounds {x : Double} {q : ℚ} (h : RoundsTo x q) :
    x.lowEnd * x.unit ≤ q ∧ q ≤ x.highEnd * x.unit := by
  unfold RoundsTo at h
  split at h
  · exact h
  · exact ⟨h.1.le, h.2.le⟩

/-- The ends of the interval of a double with an odd significand do not belong to it. -/
theorem RoundsTo.strict {x : Double} {q : ℚ} (h : RoundsTo x q) (hodd : x.significand % 2 = 1) :
    x.lowEnd * x.unit < q ∧ q < x.highEnd * x.unit := by
  unfold RoundsTo at h
  rw [if_neg (by omega)] at h
  exact h

/-- The lower end is at least half a unit below the double. -/
theorem half_le_lowEnd (x : Double) : (x.significand : ℚ) - 1 / 2 ≤ x.lowEnd := by
  unfold lowEnd
  split <;> linarith

/-! ### Rounded quotients -/

/-- The rounded quotient is the integer that the exact one is nearest to, or the even one of two. -/
theorem roundedQuotient_eq {num den m : ℕ} (hden : 0 < den) (hlow : (m : ℚ) - 1 / 2 ≤ num / den)
    (hhigh : (num / den : ℚ) ≤ m + 1 / 2)
    (hodd : m % 2 = 1 → (m : ℚ) - 1 / 2 < num / den ∧ (num / den : ℚ) < m + 1 / 2) :
    roundedQuotient num den = m := by
  have hdenQ : (0 : ℚ) < den := by exact_mod_cast hden
  have hlow' : 2 * (m * den) ≤ 2 * num + den := by
    rw [le_div_iff₀ hdenQ] at hlow
    have : (2 * (m * den) : ℚ) ≤ 2 * num + den := by linarith
    exact_mod_cast this
  have hhigh' : 2 * num ≤ 2 * (m * den) + den := by
    rw [div_le_iff₀ hdenQ] at hhigh
    have : (2 * num : ℚ) ≤ 2 * (m * den) + den := by linarith
    exact_mod_cast this
  have hodd' : m % 2 = 1 → 2 * (m * den) < 2 * num + den ∧ 2 * num < 2 * (m * den) + den := by
    intro h
    obtain ⟨h1, h2⟩ := hodd h
    rw [lt_div_iff₀ hdenQ] at h1
    rw [div_lt_iff₀ hdenQ] at h2
    have h1' : (2 * (m * den) : ℚ) < 2 * num + den := by linarith
    have h2' : (2 * num : ℚ) < 2 * (m * den) + den := by linarith
    exact ⟨by exact_mod_cast h1', by exact_mod_cast h2'⟩
  have hdiv : den * (num / den) + num % den = num := Nat.div_add_mod num den
  have hmod : num % den < den := Nat.mod_lt _ hden
  unfold roundedQuotient
  dsimp only
  generalize num / den = q at hdiv ⊢
  generalize num % den = r at hdiv hmod ⊢
  subst hdiv
  -- The rounded quotient is one of the two neighbours of the exact one.
  have hq : m = q ∨ m = q + 1 := by
    rcases Nat.lt_or_ge m q with h | h
    · obtain ⟨k, rfl⟩ := Nat.exists_eq_add_of_lt h
      nlinarith
    · obtain ⟨k, rfl⟩ := Nat.exists_eq_add_of_le h
      have hk : k < 2 := by
        by_contra hk
        nlinarith
      omega
  rcases hq with rfl | rfl
  · have hr : 2 * r ≤ den := by nlinarith
    split_ifs with h1 h2
    · rfl
    · omega
    · by_cases hm : m % 2 = 1
      · have := (hodd' hm).2
        have : 2 * r < den := by nlinarith
        omega
      · omega
  · have hr : den ≤ 2 * r := by nlinarith
    split_ifs with h1 h2
    · omega
    · rfl
    · by_cases hm : (q + 1) % 2 = 1
      · have := (hodd' hm).1
        have : den < 2 * r := by nlinarith
        omega
      · omega

/-- The scaled quotient is the number of units `2 ^ e` that the exact one is nearest to, or the even one
of two. -/
theorem scaledQuotient_eq {num den m : ℕ} {e : ℤ} (hden : 0 < den)
    (hlow : ((m : ℚ) - 1 / 2) * 2 ^ e ≤ num / den) (hhigh : (num / den : ℚ) ≤ (m + 1 / 2) * 2 ^ e)
    (hodd : m % 2 = 1 →
      ((m : ℚ) - 1 / 2) * 2 ^ e < num / den ∧ (num / den : ℚ) < (m + 1 / 2) * 2 ^ e) :
    scaledQuotient num den e = m := by
  have hpow : (0 : ℚ) < 2 ^ e := zpow_pos (by norm_num) _
  rw [← le_div_iff₀ hpow] at hlow
  rw [← div_le_iff₀ hpow] at hhigh
  rw [← lt_div_iff₀ hpow, ← div_lt_iff₀ hpow] at hodd
  unfold scaledQuotient
  split
  · next he =>
    have hq : ((num : ℚ) / den) / 2 ^ e = ((num <<< e.natAbs : ℕ) : ℚ) / den := by
      rw [zpow_of_neg 2 he, Nat.shiftLeft_eq]
      push_cast
      field_simp
    rw [hq] at hlow hhigh hodd
    exact roundedQuotient_eq hden hlow hhigh hodd
  · next he =>
    have hq : ((num : ℚ) / den) / 2 ^ e = (num : ℚ) / ((den <<< e.natAbs : ℕ) : ℚ) := by
      rw [zpow_of_nonneg 2 (not_lt.mp he), Nat.shiftLeft_eq]
      push_cast
      field_simp
    rw [hq] at hlow hhigh hodd
    exact roundedQuotient_eq (by rw [Nat.shiftLeft_eq]; positivity) hlow hhigh hodd

/-! ### Binades -/

/-- The exponent at which a positive rational is rounded: the quotient has 53 bits, or fewer at the
least exponent. -/
structure InBinade (q : ℚ) (e : ℤ) : Prop where
  least : -1074 ≤ e
  below : q < 2 ^ 53 * 2 ^ e
  normal : e = -1074 ∨ 2 ^ 52 * 2 ^ e ≤ q

/-- A smaller exponent is excluded by the number of bits. -/
theorem InBinade.not_lt {q : ℚ} {e f : ℤ} (he : InBinade q e) (hf : InBinade q f) : ¬e < f := by
  intro hlt
  have hf' := hf.normal.resolve_left (by have := he.least; omega)
  have hpow : (2 : ℚ) ^ (e + 1) ≤ 2 ^ f := zpow_le_zpow_right₀ (by norm_num) (by omega)
  rw [zpow_add₀ (by norm_num), zpow_one] at hpow
  have := he.below
  linarith

/-- There is only one exponent at which a rational is rounded. -/
theorem InBinade.unique {q : ℚ} {e f : ℤ} (he : InBinade q e) (hf : InBinade q f) : e = f := by
  have h1 := he.not_lt hf
  have h2 := hf.not_lt he
  omega

/-- The binary logarithms of two numbers bound their ratio. -/
theorem ratio_bounds {num den : ℕ} (hnum : num ≠ 0) (hden : 0 < den) :
    (2 : ℚ) ^ ((num.log2 : ℤ) - den.log2 - 1) ≤ num / den ∧
      (num / den : ℚ) < 2 ^ ((num.log2 : ℤ) - den.log2 + 1) := by
  have hdenQ : (0 : ℚ) < den := by exact_mod_cast hden
  have hnum1 : (2 : ℚ) ^ (num.log2 : ℤ) ≤ num := by
    rw [zpow_natCast]
    exact_mod_cast Nat.log2_self_le hnum
  have hnum2 : (num : ℚ) < 2 ^ ((num.log2 : ℤ) + 1) := by
    have : num < 2 ^ (num.log2 + 1) := Nat.lt_log2_self
    exact_mod_cast this
  have hden1 : (2 : ℚ) ^ (den.log2 : ℤ) ≤ den := by
    rw [zpow_natCast]
    exact_mod_cast Nat.log2_self_le (by omega)
  have hden2 : (den : ℚ) < 2 ^ ((den.log2 : ℤ) + 1) := by
    have : den < 2 ^ (den.log2 + 1) := Nat.lt_log2_self
    exact_mod_cast this
  constructor
  · rw [le_div_iff₀ hdenQ]
    calc (2 : ℚ) ^ ((num.log2 : ℤ) - den.log2 - 1) * den
        ≤ 2 ^ ((num.log2 : ℤ) - den.log2 - 1) * 2 ^ ((den.log2 : ℤ) + 1) := by gcongr
      _ = 2 ^ (num.log2 : ℤ) := by
        rw [← zpow_add₀ (by norm_num)]
        congr 1
        ring
      _ ≤ num := hnum1
  · rw [div_lt_iff₀ hdenQ]
    calc (num : ℚ) < 2 ^ ((num.log2 : ℤ) + 1) := hnum2
      _ = 2 ^ ((num.log2 : ℤ) - den.log2 + 1) * 2 ^ (den.log2 : ℤ) := by
        rw [← zpow_add₀ (by norm_num)]
        congr 1
        ring
      _ ≤ 2 ^ ((num.log2 : ℤ) - den.log2 + 1) * den := by gcongr

/-- The whole part of a scaled quotient reaches a bound when the exact one does. -/
theorem le_scaledFloor_iff (num : ℕ) {den : ℕ} (hden : 0 < den) (e : ℤ) (b : ℕ) :
    (b ≤ if e < 0 then (num <<< e.natAbs) / den else num / (den <<< e.natAbs))
      ↔ (b : ℚ) * 2 ^ e ≤ num / den := by
  have hdenQ : (0 : ℚ) < den := by exact_mod_cast hden
  rw [le_div_iff₀ hdenQ, Nat.shiftLeft_eq, Nat.shiftLeft_eq]
  split
  · next he =>
    have hpos : (0 : ℚ) < 2 ^ e.natAbs := by positivity
    rw [Nat.le_div_iff_mul_le hden, zpow_of_neg 2 he]
    have hq : (b : ℚ) * (2 ^ e.natAbs)⁻¹ * den ≤ num ↔ (b * den : ℚ) ≤ num * 2 ^ e.natAbs := by
      rw [← div_eq_mul_inv, div_mul_eq_mul_div, div_le_iff₀ hpos]
    rw [hq]
    exact_mod_cast Iff.rfl
  · next he =>
    rw [Nat.le_div_iff_mul_le (by positivity), zpow_of_nonneg 2 (not_lt.mp he)]
    have hq : b * (den * 2 ^ e.natAbs) ≤ num ↔ b * 2 ^ e.natAbs * den ≤ num := by
      rw [mul_comm den, ← mul_assoc]
    rw [hq]
    exact_mod_cast Iff.rfl

/-- A ratio is rounded at the exponent of its binade. -/
theorem ofRatio_eq (negative : Bool) {num den : ℕ} (hnum : num ≠ 0) (hden : 0 < den) :
    ∃ e, InBinade (num / den) e ∧
      ofRatio negative num den = ofScaled negative (scaledQuotient num den e) e := by
  obtain ⟨hlow, hhigh⟩ := ratio_bounds hnum hden
  rw [ofRatio, if_neg hnum]
  dsimp only
  refine ⟨_, ?_, rfl⟩
  generalize (num.log2 : ℤ) - den.log2 = k at hlow hhigh ⊢
  generalize hE : max (k - 53) (-1074) = E
  have hfloor := le_scaledFloor_iff num hden E (2 * hiddenWeight)
  generalize (if E < 0 then (num <<< E.natAbs) / den else num / (den <<< E.natAbs)) = floor
    at hfloor ⊢
  generalize (num / den : ℚ) = q at hlow hhigh hfloor ⊢
  have hbits : ((2 * hiddenWeight : ℕ) : ℚ) = 2 ^ 53 := by
    rw [hiddenWeight_eq]
    norm_num
  rw [hbits] at hfloor
  by_cases h : 2 * hiddenWeight ≤ floor
  · -- The estimate was one too low; it was not the least exponent, where the quotient is short.
    have hbig := hfloor.mp h
    have hk : E = k - 53 := by
      by_contra hne
      have hle : (2 : ℚ) ^ (k + 1) ≤ 2 ^ (53 + E) := zpow_le_zpow_right₀ (by norm_num) (by omega)
      rw [zpow_add₀ (by norm_num) 53 E] at hle
      have : (2 : ℚ) ^ (53 : ℤ) = 2 ^ 53 := by norm_num
      linarith
    have hup : (2 : ℚ) ^ 53 * 2 ^ (E + 1) = 2 ^ (k + 1) := by
      rw [← zpow_natCast, ← zpow_add₀ (by norm_num)]
      congr 1
      push_cast
      omega
    have hdown : (2 : ℚ) ^ 52 * 2 ^ (E + 1) = 2 ^ 53 * 2 ^ E := by
      rw [zpow_add₀ (by norm_num), zpow_one]
      ring
    rw [if_pos h]
    exact ⟨by omega, by rw [hup]; exact hhigh, Or.inr (by rw [hdown]; exact hbig)⟩
  · have hsmall := lt_of_not_ge (mt hfloor.mpr h)
    rw [if_neg h]
    refine ⟨by omega, hsmall, ?_⟩
    by_cases hleast : E = -1074
    · exact Or.inl hleast
    · have hdown : (2 : ℚ) ^ 52 * 2 ^ E = 2 ^ (k - 1) := by
        rw [← zpow_natCast, ← zpow_add₀ (by norm_num)]
        congr 1
        push_cast
        omega
      exact Or.inr (by rw [hdown]; exact hlow)

/-! ### Ratios that round to a double -/

/-- A double is finite when its exponent bits are not all set. -/
theorem biased_le_of_isFinite {x : Double} (h : x.isFinite = true) : x.biased ≤ 2046 := by
  have := x.biased_lt
  simp only [isFinite, bne_iff_ne] at h
  omega

/-- A significand at its exponent is put back into the fields it came from. -/
theorem ofScaled_parts (negative : Bool) {x : Double} (h : x.isFinite = true) :
    ofScaled negative x.significand x.exponent = ofFields negative x.biased x.fraction := by
  have hbiased := biased_le_of_isFinite h
  have hfraction := x.fraction_lt
  by_cases hzero : x.biased = 0
  · have hm : x.significand = x.fraction := by rw [significand, if_pos hzero]
    rw [ofScaled, hm, hiddenWeight_eq, if_pos hfraction, hzero]
  · have hm : x.significand = 2 ^ 52 + x.fraction := by
      rw [significand, if_neg hzero, hiddenWeight_eq]
    have he : x.exponent = (x.biased : ℤ) - 1075 := by
      unfold exponent
      omega
    rw [ofScaled, hm, he, hiddenWeight_eq, if_neg (by omega), if_neg (by omega)]
    dsimp only
    have hfields : ((x.biased : ℤ) - 1075 + 1075).toNat = x.biased := by omega
    rw [if_neg (by omega), hfields, Nat.add_sub_cancel_left]

/-- A power of two above the least normal one is also reached from the binade below it. -/
theorem ofScaled_carry (negative : Bool) {x : Double} (h : x.isFinite = true)
    (hfraction : x.fraction = 0) (hbiased : 1 < x.biased) :
    ofScaled negative (2 ^ 53) (x.exponent - 1) = ofFields negative x.biased x.fraction := by
  have hle := biased_le_of_isFinite h
  have he : x.exponent = (x.biased : ℤ) - 1075 := by
    unfold exponent
    omega
  rw [ofScaled, hiddenWeight_eq, if_neg (by norm_num), if_pos (by norm_num), he]
  dsimp only
  rw [if_neg (by omega), hfraction]
  congr 1
  omega

/-- The unit of a double is twice that of the binade below. -/
theorem unit_eq (x : Double) : x.unit = 2 * 2 ^ (x.exponent - 1) := by
  rw [unit, ← zpow_one_add₀ (by norm_num)]
  congr 1
  ring

/-- A rational in the interval of a double lies in its binade, or the double is a power of two and the
rational lies just below it, at most a quarter of a unit away. -/
theorem RoundsTo.binade {x : Double} {q : ℚ} (h : RoundsTo x q) :
    InBinade q x.exponent ∨ (x.fraction = 0 ∧ 1 < x.biased ∧ q < 2 ^ 52 * x.unit ∧
      (2 ^ 52 - 1 / 4) * x.unit ≤ q) := by
  obtain ⟨hlow, hhigh⟩ := h.bounds
  have hunit := x.unit_pos
  have hbelow : q < 2 ^ 53 * x.unit := by
    have hm : (x.significand : ℚ) + 1 ≤ 2 ^ 53 := by exact_mod_cast x.significand_lt
    calc q ≤ x.highEnd * x.unit := hhigh
      _ < 2 ^ 53 * x.unit := by
        refine mul_lt_mul_of_pos_right ?_ hunit
        rw [highEnd]
        linarith
  by_cases hleast : x.exponent = -1074
  · exact Or.inl ⟨x.le_exponent, hbelow, Or.inl hleast⟩
  by_cases hnormal : 2 ^ 52 * x.unit ≤ q
  · exact Or.inl ⟨x.le_exponent, hbelow, Or.inr hnormal⟩
  -- Above the least exponent only a power of two has rationals of a lower binade in its interval.
  have hbiased : 1 < x.biased := by
    unfold exponent at hleast
    omega
  have hm : x.significand = 2 ^ 52 + x.fraction := by
    rw [significand, if_neg (by omega), hiddenWeight_eq]
  have hfraction : x.fraction = 0 := by
    by_contra hne
    have hm' : (2 : ℚ) ^ 52 + 1 ≤ x.significand := by
      rw [hm]
      exact_mod_cast (by omega : 2 ^ 52 + 1 ≤ 2 ^ 52 + x.fraction)
    have hend : (2 : ℚ) ^ 52 ≤ x.lowEnd := by
      have := x.half_le_lowEnd
      linarith
    exact hnormal (le_trans (mul_le_mul_of_nonneg_right hend hunit.le) hlow)
  have hend : x.lowEnd = 2 ^ 52 - 1 / 4 := by
    rw [lowEnd, if_pos ⟨hfraction, hbiased⟩, hm, hfraction]
    norm_num
  refine Or.inr ⟨hfraction, hbiased, lt_of_not_ge hnormal, ?_⟩
  rw [← hend]
  exact hlow

/-- A ratio in the interval of a finite double is rounded to that double. -/
theorem ofRatio_of_roundsTo (negative : Bool) {x : Double} {num den : ℕ} (hx : x.isFinite = true)
    (hnum : num ≠ 0) (hden : 0 < den) (h : RoundsTo x (num / den)) :
    ofRatio negative num den = ofFields negative x.biased x.fraction := by
  obtain ⟨e, hbinade, heq⟩ := ofRatio_eq negative hnum hden
  have hunit := x.unit_pos
  rw [heq]
  rcases h.binade with hown | ⟨hfraction, hbiased, hbelow, hquarter⟩
  · obtain rfl := hbinade.unique hown
    have hend : ((x.significand : ℚ) - 1 / 2) * x.unit ≤ x.lowEnd * x.unit :=
      mul_le_mul_of_nonneg_right x.half_le_lowEnd hunit.le
    have hround : scaledQuotient num den x.exponent = x.significand :=
      scaledQuotient_eq hden (le_trans hend h.bounds.1) h.bounds.2
        fun hodd => ⟨lt_of_le_of_lt hend (h.strict hodd).1, (h.strict hodd).2⟩
    rw [hround]
    exact ofScaled_parts negative hx
  · have hunit' := x.unit_eq
    have hpow : (0 : ℚ) < 2 ^ (x.exponent - 1) := zpow_pos (by norm_num) _
    have hunder : InBinade (num / den) (x.exponent - 1) := by
      have hleast : -1074 ≤ x.exponent - 1 := by
        unfold exponent
        omega
      refine ⟨hleast, ?_, Or.inr ?_⟩
      · rw [hunit'] at hbelow
        linarith
      · rw [hunit'] at hquarter
        linarith
    obtain rfl := hbinade.unique hunder
    have hround : scaledQuotient num den (x.exponent - 1) = 2 ^ 53 := by
      refine scaledQuotient_eq hden ?_ ?_ fun hodd => absurd hodd (by norm_num)
      · rw [hunit'] at hquarter
        push_cast
        linarith
      · rw [hunit'] at hbelow
        push_cast
        linarith
    rw [hround]
    exact ofScaled_carry negative hx hfraction hbiased

/-! ### Decimals that round to a double -/

/-- The number of decimal digits bounds a positive number. -/
theorem length_toDigits_bounds {n : ℕ} (hn : n ≠ 0) :
    (10 : ℚ) ^ (((Nat.toDigits 10 n).length : ℤ) - 1) ≤ n ∧
      (n : ℚ) < 10 ^ ((Nat.toDigits 10 n).length : ℤ) := by
  have hpos : 0 < (Nat.toDigits 10 n).length := Nat.length_toDigits_pos
  constructor
  · obtain ⟨k, hk⟩ : ∃ k, (Nat.toDigits 10 n).length = k + 1 := ⟨_, (Nat.sub_add_cancel hpos).symm⟩
    have hle : 10 ^ k ≤ n := by
      rcases Nat.eq_zero_or_pos k with rfl | hk0
      · exact Nat.pos_of_ne_zero hn
      · by_contra hlt
        have := (Nat.length_toDigits_le_iff (by norm_num) hk0).mpr (Nat.lt_of_not_le hlt)
        omega
    rw [hk]
    push_cast
    rw [add_sub_cancel_right, zpow_natCast]
    exact_mod_cast hle
  · have := (Nat.length_toDigits_le_iff (b := 10) (by norm_num) hpos).mp le_rfl
    rw [zpow_natCast]
    exact_mod_cast this

/-- Every double is below the bound from which on decimals are not looked at. -/
theorem two_pow_le_ten_pow : (2 : ℚ) ^ (1024 : ℤ) ≤ 10 ^ (310 : ℤ) := by
  have hnat : (2 : ℕ) ^ 1024 ≤ 10 ^ 310 := by decide +kernel
  exact_mod_cast hnat

/-- Every double is above the bound up to which decimals are not looked at. -/
theorem ten_pow_le_two_pow : (10 : ℚ) ^ (-330 : ℤ) ≤ 2 ^ (-1075 : ℤ) := by
  have hnat : (2 : ℕ) ^ 1075 ≤ 10 ^ 330 := by decide +kernel
  rw [zpow_neg, zpow_neg]
  exact inv_anti₀ (zpow_pos (by norm_num) _) (by exact_mod_cast hnat)

/-- A finite double other than zero has at least one unit. -/
theorem one_le_significand {x : Double} (h : x.isZero = false) : 1 ≤ x.significand := by
  simp only [isZero, Bool.and_eq_false_iff, beq_eq_false_iff_ne] at h
  rw [significand, hiddenWeight_eq]
  split
  · next h0 => exact Nat.one_le_iff_ne_zero.mpr (h.resolve_left (by simpa using h0))
  · omega

/-- What rounds to a finite double other than zero lies between half the least double and the power of
two above the greatest one. -/
theorem RoundsTo.range {x : Double} {q : ℚ} (hx : x.isFinite = true) (hzero : x.isZero = false)
    (h : RoundsTo x q) : (2 : ℚ) ^ (-1075 : ℤ) ≤ q ∧ q < 2 ^ (1024 : ℤ) := by
  obtain ⟨hlow, hhigh⟩ := h.bounds
  have hbiased := biased_le_of_isFinite hx
  have hunit1 : (2 : ℚ) ^ (-1074 : ℤ) ≤ x.unit := zpow_le_zpow_right₀ (by norm_num) x.le_exponent
  have hunit2 : x.unit ≤ (2 : ℚ) ^ (971 : ℤ) := by
    refine zpow_le_zpow_right₀ (by norm_num) ?_
    unfold exponent
    omega
  constructor
  · have hend : (1 / 2 : ℚ) ≤ x.lowEnd := by
      have hm : (1 : ℚ) ≤ x.significand := by exact_mod_cast one_le_significand hzero
      have := x.half_le_lowEnd
      linarith
    calc (2 : ℚ) ^ (-1075 : ℤ) = 1 / 2 * 2 ^ (-1074 : ℤ) := by
          rw [show (-1075 : ℤ) = -1 + -1074 by norm_num, zpow_add₀ (by norm_num)]
          norm_num
      _ ≤ x.lowEnd * x.unit := mul_le_mul hend hunit1 (by positivity) (by linarith)
      _ ≤ q := hlow
  · have hend : x.highEnd < 2 ^ 53 := by
      have hm : (x.significand : ℚ) + 1 ≤ 2 ^ 53 := by exact_mod_cast x.significand_lt
      rw [highEnd]
      linarith
    calc q ≤ x.highEnd * x.unit := hhigh
      _ < 2 ^ 53 * x.unit := mul_lt_mul_of_pos_right hend x.unit_pos
      _ ≤ 2 ^ 53 * 2 ^ (971 : ℤ) := by gcongr
      _ = 2 ^ (1024 : ℤ) := by
        rw [← zpow_natCast, ← zpow_add₀ (by norm_num)]
        norm_num

/-- What rounds to a finite double other than zero has a digit other than zero. -/
theorem RoundsTo.digits_ne_zero {x : Double} {digits : ℕ} {scale : ℤ} (hx : x.isFinite = true)
    (hzero : x.isZero = false) (h : RoundsTo x (digits * 10 ^ scale)) : digits ≠ 0 := by
  rintro rfl
  have hlow := (h.range hx hzero).1
  rw [Nat.cast_zero, zero_mul] at hlow
  exact absurd hlow (not_le.mpr (zpow_pos (by norm_num) _))

/-- A decimal in the interval of a finite double other than zero is rounded to that double. -/
theorem ofDecimal_of_roundsTo (negative : Bool) {x : Double} {digits : ℕ} {scale : ℤ}
    (hx : x.isFinite = true) (hzero : x.isZero = false) (h : RoundsTo x (digits * 10 ^ scale)) :
    ofDecimal negative digits scale = ofFields negative x.biased x.fraction := by
  obtain ⟨hlow, hhigh⟩ := h.range hx hzero
  have hscale : (0 : ℚ) < 10 ^ scale := zpow_pos (by norm_num) _
  have hdigits : digits ≠ 0 := h.digits_ne_zero hx hzero
  obtain ⟨hcount1, hcount2⟩ := length_toDigits_bounds hdigits
  unfold ofDecimal
  dsimp only
  generalize ((Nat.toDigits 10 digits).length : ℤ) = count at hcount1 hcount2 ⊢
  have hnotLarge : ¬310 < count + scale := by
    intro hlarge
    have : (2 : ℚ) ^ (1024 : ℤ) ≤ digits * 10 ^ scale := by
      calc (2 : ℚ) ^ (1024 : ℤ) ≤ 10 ^ (310 : ℤ) := two_pow_le_ten_pow
        _ ≤ 10 ^ (count - 1 + scale) := zpow_le_zpow_right₀ (by norm_num) (by omega)
        _ = 10 ^ (count - 1) * 10 ^ scale := zpow_add₀ (by norm_num) _ _
        _ ≤ digits * 10 ^ scale := by gcongr
    exact absurd hhigh (not_lt.mpr this)
  have hnotSmall : ¬count + scale < -330 := by
    intro hsmall
    have : (digits : ℚ) * 10 ^ scale < 2 ^ (-1075 : ℤ) := by
      calc (digits : ℚ) * 10 ^ scale < 10 ^ count * 10 ^ scale := by gcongr
        _ = 10 ^ (count + scale) := (zpow_add₀ (by norm_num) _ _).symm
        _ ≤ 10 ^ (-330 : ℤ) := zpow_le_zpow_right₀ (by norm_num) (by omega)
        _ ≤ 2 ^ (-1075 : ℤ) := ten_pow_le_two_pow
    exact absurd hlow (not_le.mpr this)
  rw [if_neg hdigits, if_neg hnotLarge, if_neg hnotSmall]
  split
  · next hneg =>
    have hratio : (digits : ℚ) * 10 ^ scale = (digits : ℚ) / ((Nat.pow 10 scale.natAbs : ℕ) : ℚ) := by
      rw [zpow_of_neg 10 hneg, ← div_eq_mul_inv, Nat.pow_eq]
      push_cast
      rfl
    rw [hratio] at h
    exact ofRatio_of_roundsTo negative hx hdigits (Nat.pow_pos (by norm_num)) h
  · next hneg =>
    have hratio : (digits : ℚ) * 10 ^ scale
        = ((digits * Nat.pow 10 scale.natAbs : ℕ) : ℚ) / ((1 : ℕ) : ℚ) := by
      rw [zpow_of_nonneg 10 (not_lt.mp hneg), Nat.pow_eq]
      push_cast
      rw [div_one]
    rw [hratio] at h
    have hnum : digits * Nat.pow 10 scale.natAbs ≠ 0 :=
      Nat.mul_ne_zero hdigits (Nat.pow_pos (by norm_num)).ne'
    exact ofRatio_of_roundsTo negative hx hnum (by norm_num) h

end SwiftLens.Double
