import SwiftLens.Proofs.Number.Whole

/-!
# Natural numbers that are too great for a double

`Double.isFinite_ofNat_iff` is that the double nearest to a natural number is finite just when the number is
below `Double.overflow`, which is `2 ^ 1024 - 2 ^ 970`.

Above `2 ^ 53` a number is rounded to `m * 2 ^ k`, where the significand `m` has 53 bits or is the next power
of two. Up to `k = 970` that is finite, from `k = 972` on it is infinite, and at `k = 971` it depends on
whether rounding carries (`isFinite_ofScaled`). `lt_bound_iff` compares this with the number itself.
-/

namespace SwiftLens.Double

/-- The least number for which the nearest double is infinite: it lies halfway between the greatest finite
double and the power of two above it, which is `2 ^ 1024`. -/
def overflow : ℕ := (2 ^ 54 - 1) * 2 ^ 970

/-- A whole significand is infinite as soon as its exponent is too great; a carry adds one to it. -/
theorem isFinite_ofScaled {m k : ℕ} (hlow : 2 ^ 52 ≤ m) (hhigh : m ≤ 2 ^ 53) :
    (ofScaled false m k).isFinite = true ↔ k ≤ 970 ∨ k = 971 ∧ m ≠ 2 ^ 53 := by
  have hfields : ∀ {biased fraction : ℕ}, biased < 2047 → fraction < 2 ^ 52 →
      (ofFields false biased fraction).isFinite = true := by
    intro biased fraction hb hf
    rw [isFinite, biased_ofFields false (by omega) hf, bne_iff_ne]
    omega
  have hinfinite : (infinity false).isFinite = false := by decide
  rw [ofScaled, hiddenWeight_eq, if_neg (by omega)]
  by_cases htop : m = 2 ^ 53
  · rw [if_pos (by omega)]
    dsimp only
    split_ifs with hgreat
    · rw [hinfinite]
      exact iff_of_false Bool.false_ne_true (by omega)
    · exact iff_of_true (hfields (by omega) (by omega)) (by omega)
  · rw [if_neg (by omega)]
    dsimp only
    split_ifs with hgreat
    · rw [hinfinite]
      exact iff_of_false Bool.false_ne_true (by omega)
    · exact iff_of_true (hfields (by omega) (by omega)) (by omega)

/-- The rounded quotient is at most half away from the exact one, and less than half if it is odd. -/
theorem roundedQuotient_bounds (num : ℕ) {den : ℕ} (hden : 0 < den) :
    2 * (roundedQuotient num den * den) ≤ 2 * num + den ∧
      2 * num + roundedQuotient num den % 2 ≤ 2 * (roundedQuotient num den * den) + den := by
  have hdiv : den * (num / den) + num % den = num := Nat.div_add_mod num den
  have hmod : num % den < den := Nat.mod_lt _ hden
  unfold roundedQuotient
  dsimp only
  generalize num / den = q at hdiv ⊢
  generalize num % den = r at hdiv hmod ⊢
  subst hdiv
  have hcomm : den * q = q * den := Nat.mul_comm _ _
  split_ifs with hdown hup
  · omega
  · rw [Nat.add_mul]
    omega
  · rcases Nat.mod_two_eq_zero_or_one q with h | h <;> rw [h, Nat.add_mul] <;> omega

/-- A number in a binade of whole numbers. -/
theorem InBinade.natural {n k : ℕ} (h : InBinade n k) : 2 ^ 52 * 2 ^ k ≤ n ∧ n < 2 ^ 53 * 2 ^ k := by
  have hlow := h.normal.resolve_left (by omega)
  have hhigh := h.below
  rw [zpow_natCast] at hlow hhigh
  exact ⟨by exact_mod_cast hlow, by exact_mod_cast hhigh⟩

/-- A number that is rounded to `m * 2 ^ k` lies below the bound at `t` just when `k` does, or is the next
exponent and the significand has no carry: the bound itself is rounded up, to the even one. -/
theorem lt_bound_iff {n m k : ℕ} (hlow : 2 ^ 52 * 2 ^ k ≤ n) (hhigh : n < 2 ^ 53 * 2 ^ k)
    (hdown : 2 * (m * 2 ^ k) ≤ 2 * n + 2 ^ k) (hup : 2 * n + m % 2 ≤ 2 * (m * 2 ^ k) + 2 ^ k)
    (hm : m ≤ 2 ^ 53) (t : ℕ) :
    n < (2 ^ 54 - 1) * 2 ^ t ↔ k ≤ t ∨ k = t + 1 ∧ m ≠ 2 ^ 53 := by
  have hpos : 0 < 2 ^ t := Nat.two_pow_pos t
  rcases Nat.lt_trichotomy k (t + 1) with hk | rfl | hk
  · refine iff_of_true ?_ (.inl (by omega))
    have hpow : 2 ^ k ≤ 2 ^ t := Nat.pow_le_pow_right (by norm_num) (by omega)
    omega
  · rw [Nat.pow_succ'] at hdown hup
    generalize 2 ^ t = d at hdown hup hpos ⊢
    constructor
    · intro hn
      refine .inr ⟨rfl, ?_⟩
      rintro rfl
      omega
    · rintro (hle | ⟨-, hne⟩)
      · omega
      · by_cases hodd : m = 2 ^ 53 - 1
        · subst hodd
          omega
        · have hmul : m * (2 * d) ≤ (2 ^ 53 - 2) * (2 * d) := Nat.mul_le_mul_right _ (by omega)
          omega
  · refine iff_of_false ?_ (by omega)
    have hpow : 2 ^ (t + 2) ≤ 2 ^ k := Nat.pow_le_pow_right (by norm_num) (by omega)
    rw [Nat.pow_succ', Nat.pow_succ'] at hpow
    omega

/-- A natural number is finite as a double just when it is below the bound. -/
theorem isFinite_ofNat_iff (n : ℕ) : (ofNat n).isFinite = true ↔ n < overflow := by
  by_cases hsmall : n ≤ 2 ^ 53
  · have hbound : ∀ t : ℕ, n < (2 ^ 54 - 1) * 2 ^ t := by
      intro t
      have hpos := Nat.two_pow_pos t
      omega
    exact iff_of_true (toInt?_ofNat hsmall).1 (hbound 970)
  obtain ⟨e, hbinade, heq⟩ := ofRatio_eq false (show n ≠ 0 by omega) one_pos
  rw [Nat.cast_one, div_one] at hbinade
  have hpositive : 0 ≤ e := by
    by_contra hneg
    have hpow : (2 : ℚ) ^ e ≤ 2 ^ (0 : ℤ) := zpow_le_zpow_right₀ (by norm_num) (by omega)
    have hbelow := hbinade.below
    have hgreat : (2 ^ 53 : ℚ) < n := by exact_mod_cast Nat.lt_of_not_le hsmall
    rw [zpow_zero] at hpow
    linarith
  obtain ⟨k, rfl⟩ := Int.eq_ofNat_of_zero_le hpositive
  obtain ⟨hlow, hhigh⟩ := hbinade.natural
  have hquotient : scaledQuotient n 1 k = roundedQuotient n (2 ^ k) := by
    rw [scaledQuotient, if_neg (by omega), Nat.shiftLeft_eq, one_mul, Int.natAbs_natCast]
  have hden : 0 < 2 ^ k := Nat.two_pow_pos k
  obtain ⟨hdown, hup⟩ := roundedQuotient_bounds n hden
  rw [ofNat, heq, hquotient]
  generalize roundedQuotient n (2 ^ k) = m at hdown hup ⊢
  have hm : 2 ^ 52 ≤ m ∧ m ≤ 2 ^ 53 := by
    generalize 2 ^ k = d at hlow hhigh hden hdown hup
    constructor
    · by_contra hless
      have hmul : m * d ≤ (2 ^ 52 - 1) * d := Nat.mul_le_mul_right d (by omega)
      omega
    · by_contra hmore
      have hmul : (2 ^ 53 + 1) * d ≤ m * d := Nat.mul_le_mul_right d (by omega)
      omega
  rw [isFinite_ofScaled hm.1 hm.2]
  exact (lt_bound_iff hlow hhigh hdown hup hm.2 970).symm

end SwiftLens.Double
