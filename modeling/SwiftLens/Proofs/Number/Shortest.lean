import SwiftLens.Number.Layout
import SwiftLens.Proofs.Number.Rounding
import SwiftLens.Proofs.Text.Decimal

/-!
# Shortest decimals round to their doubles

`shortest_roundsTo`: the shortest decimal of a finite double other than zero lies in the interval of the
rationals that round to that double. So does every decimal that the search returns, since it returns none
without having tried it (`contains_iff`); what has to be shown is that the search does not run out. With
seventeen digits the grid of decimals is finer than the interval is wide (`exists_grid_point`), because a
double has at most 53 bits and `2 ^ 53 < 10 ^ 16`.

The digits that are printed are those of the decimal without trailing zeros. They are at least one, the
first is not zero, and with the place of the point they denote the same number
(`significantDigits_spec`).
-/

namespace SwiftLens

open Double

namespace Decimal

/-! ### The interval as a pair of ratios -/

/-- A quarter of the unit of a double as a ratio. -/
theorem quarter_unit (x : Double) :
    ((if 0 ≤ x.exponent then 1 <<< x.exponent.natAbs else 1 : ℕ) : ℚ)
      / ((if 0 ≤ x.exponent then 4 else 4 <<< x.exponent.natAbs : ℕ) : ℚ) = x.unit / 4 := by
  rw [Double.unit, Nat.shiftLeft_eq, Nat.shiftLeft_eq, one_mul]
  split
  · next h =>
    rw [zpow_of_nonneg 2 h]
    push_cast
    rfl
  · next h =>
    rw [zpow_of_neg 2 (not_le.mp h)]
    push_cast
    field_simp

/-- The denominator of an interval is positive. -/
theorem den_pos (x : Double) : 0 < (Interval.of x).den := by
  unfold Interval.of
  dsimp only
  rw [Nat.shiftLeft_eq]
  split <;> positivity

/-- The lower end of the interval. -/
theorem low_div_den {x : Double} (hzero : x.isZero = false) :
    ((Interval.of x).low : ℚ) / (Interval.of x).den = x.lowEnd * x.unit := by
  have hm := one_le_significand hzero
  unfold Interval.of lowEnd
  dsimp only
  rw [Nat.cast_mul, mul_div_assoc, quarter_unit]
  split
  · rw [Nat.cast_sub (by omega)]
    push_cast
    ring
  · rw [Nat.cast_sub (by omega)]
    push_cast
    ring

/-- The double itself as a ratio. -/
theorem value_div_den (x : Double) :
    ((Interval.of x).value : ℚ) / (Interval.of x).den = x.magnitude := by
  unfold Interval.of magnitude
  dsimp only
  rw [Nat.cast_mul, mul_div_assoc, quarter_unit]
  push_cast
  ring

/-- The upper end of the interval. -/
theorem high_div_den (x : Double) :
    ((Interval.of x).high : ℚ) / (Interval.of x).den = x.highEnd * x.unit := by
  unfold Interval.of highEnd
  dsimp only
  rw [Nat.cast_mul, mul_div_assoc, quarter_unit]
  push_cast
  ring

/-- Comparing a decimal with a ratio by whole numbers. -/
theorem scaled_compare (a den d : ℕ) (scale : ℤ) (hden : 0 < den) :
    let num := if 0 ≤ scale then d * Nat.pow 10 scale.natAbs * den else d * den
    let unit := if 0 ≤ scale then 1 else Nat.pow 10 scale.natAbs
    (a * unit ≤ num ↔ (a / den : ℚ) ≤ d * 10 ^ scale) ∧
      (num ≤ a * unit ↔ (d * 10 ^ scale : ℚ) ≤ a / den) := by
  have hdenQ : (0 : ℚ) < den := by exact_mod_cast hden
  dsimp only
  rw [div_le_iff₀ hdenQ, le_div_iff₀ hdenQ, Nat.pow_eq]
  split
  · next h =>
    rw [zpow_of_nonneg 10 h, mul_one]
    exact ⟨by exact_mod_cast Iff.rfl, by exact_mod_cast Iff.rfl⟩
  · next h =>
    have hpos : (0 : ℚ) < 10 ^ scale.natAbs := by positivity
    have hnum : (d : ℚ) * (10 ^ scale.natAbs)⁻¹ * den = (d * den) / 10 ^ scale.natAbs := by
      field_simp
    rw [zpow_of_neg 10 (not_le.mp h), hnum, le_div_iff₀ hpos, div_le_iff₀ hpos]
    exact ⟨by exact_mod_cast Iff.rfl, by exact_mod_cast Iff.rfl⟩

/-- The test of the search is membership in the interval. -/
theorem contains_iff {x : Double} (hzero : x.isZero = false) (d : ℕ) (scale : ℤ) :
    (Interval.of x).contains d scale = true ↔ RoundsTo x (d * 10 ^ scale) := by
  have hlow := scaled_compare (Interval.of x).low _ d scale (den_pos x)
  have hhigh := scaled_compare (Interval.of x).high _ d scale (den_pos x)
  rw [low_div_den hzero] at hlow
  rw [high_div_den] at hhigh
  have hclosed : (Interval.of x).closed = (x.significand % 2 == 0) := rfl
  unfold Interval.contains RoundsTo
  dsimp only at hlow hhigh ⊢
  rw [hclosed]
  by_cases heven : x.significand % 2 = 0
  · rw [if_pos heven, if_pos (by simpa using heven), Bool.and_eq_true, decide_eq_true_eq,
      decide_eq_true_eq, hlow.1, hhigh.2]
  · rw [if_neg heven, if_neg (by simpa using heven), Bool.and_eq_true, decide_eq_true_eq,
      decide_eq_true_eq, ← not_le, ← not_le, hlow.2, hhigh.1, not_le, not_le]

/-! ### Seventeen digits -/

/-- The place of the point is not too high. -/
theorem ten_pow_pointOf_le {num den : ℕ} (hnum : 0 < num) (hden : 0 < den) :
    (10 : ℚ) ^ (pointOf num den - 1) ≤ num / den := by
  have hdenQ : (0 : ℚ) < den := by exact_mod_cast hden
  unfold pointOf digitCount
  split
  · next h =>
    have hquotient : num / den ≠ 0 := (Nat.div_pos h hden).ne'
    calc (10 : ℚ) ^ (((Nat.toDigits 10 (num / den)).length : ℤ) - 1)
        ≤ ((num / den : ℕ) : ℚ) := (length_toDigits_bounds hquotient).1
      _ ≤ num / den := Nat.cast_div_le
  · next h =>
    -- The reciprocal is at most the ceiling of its ratio, which has one digit more at most.
    have hceil : den ≤ ((den + num - 1) / num) * num := by
      have h1 : (den + num - 1) % num < num := Nat.mod_lt _ hnum
      have h2 := Nat.div_add_mod (den + num - 1) num
      rw [mul_comm]
      omega
    have htwo : 2 ≤ (den + num - 1) / num := by
      rw [Nat.le_div_iff_mul_le hnum]
      omega
    generalize (den + num - 1) / num = c at hceil htwo ⊢
    have hdigits := (length_toDigits_bounds (n := c - 1) (by omega)).2
    generalize (Nat.toDigits 10 (c - 1)).length = k at hdigits ⊢
    rw [zpow_natCast] at hdigits
    have hc : c ≤ 10 ^ k := by
      have : c - 1 < 10 ^ k := by exact_mod_cast hdigits
      omega
    have hprod : den ≤ 10 ^ k * num := le_trans hceil (Nat.mul_le_mul_right num hc)
    have hexp : (1 : ℤ) - k - 1 = -(k : ℤ) := by ring
    have hprodQ : (den : ℚ) ≤ 10 ^ k * num := by exact_mod_cast hprod
    rw [hexp, zpow_neg, zpow_natCast, le_div_iff₀ hdenQ, inv_mul_le_iff₀ (by positivity)]
    exact hprodQ

/-- A grid that is finer than one in ten to the sixteenth of a double is finer than its interval. -/
theorem grid_lt_width {x : Double} (hzero : x.isZero = false) {g : ℚ}
    (hg : g * 10 ^ 16 ≤ x.magnitude) : g < x.highEnd * x.unit - x.lowEnd * x.unit := by
  have hunit := x.unit_pos
  have hm : (x.significand : ℚ) + 1 ≤ 2 ^ 53 := by exact_mod_cast x.significand_lt
  have hone : (1 : ℚ) ≤ x.significand := by exact_mod_cast one_le_significand hzero
  rw [magnitude] at hg
  rw [← sub_mul, highEnd, lowEnd]
  split
  · next h =>
    have hpower : (x.significand : ℚ) = 2 ^ 52 := by
      rw [significand, if_neg (by omega), h.1, hiddenWeight_eq]
      norm_num
    rw [hpower] at hg ⊢
    linarith
  · nlinarith

/-- A rational between the ends of the interval is in the interval. -/
theorem roundsTo_of_between {x : Double} {q : ℚ} (hlow : x.lowEnd * x.unit < q)
    (hhigh : q < x.highEnd * x.unit) : RoundsTo x q := by
  unfold RoundsTo
  split
  · exact ⟨hlow.le, hhigh.le⟩
  · exact ⟨hlow, hhigh⟩

/-- A double lies inside of its interval. -/
theorem magnitude_between (x : Double) :
    x.lowEnd * x.unit < x.magnitude ∧ x.magnitude < x.highEnd * x.unit := by
  have hunit := x.unit_pos
  have hlow : x.lowEnd < x.significand := by
    unfold lowEnd
    split <;> linarith
  have hhigh : (x.significand : ℚ) < x.highEnd := by
    unfold highEnd
    linarith
  exact ⟨mul_lt_mul_of_pos_right hlow hunit, mul_lt_mul_of_pos_right hhigh hunit⟩

/-- One of the two multiples of a fine enough step around a double rounds to it. -/
theorem exists_grid_point {x : Double} (hzero : x.isZero = false) {g : ℚ}
    (hg : g * 10 ^ 16 ≤ x.magnitude) {d : ℕ} (hd : d * g ≤ x.magnitude)
    (hd' : x.magnitude < (d + 1) * g) : RoundsTo x (d * g) ∨ RoundsTo x ((d + 1) * g) := by
  have hwidth := grid_lt_width hzero hg
  obtain ⟨hlow, hhigh⟩ := magnitude_between x
  by_cases h : x.lowEnd * x.unit < d * g
  · exact Or.inl (roundsTo_of_between h (by linarith))
  · refine Or.inr (roundsTo_of_between (by linarith) ?_)
    linarith

/-! ### The search -/

/-- The rounded quotient is the whole quotient or the next number. -/
theorem roundedQuotient_cases (num den : ℕ) :
    roundedQuotient num den = num / den ∨ roundedQuotient num den = num / den + 1 := by
  unfold roundedQuotient
  dsimp only
  split_ifs
  · exact Or.inl rfl
  · exact Or.inr rfl
  · omega

/-- What is picked from a grid lies in the interval. -/
theorem contains_of_pick {i : Interval} {scale : ℤ} {d : ℕ} (h : i.pick scale = some d) :
    i.contains d scale = true := by
  unfold Interval.pick at h
  dsimp only at h
  split at h
  · next h1 h2 =>
    cases h
    rcases roundedQuotient_cases _ _ with heq | heq
    · rw [heq]
      exact h1
    · rw [heq]
      exact h2
  · next h1 _ => cases h; exact h1
  · next _ h2 => cases h; exact h2
  · cases h

/-- Where one of the two neighbours on a grid lies in the interval, one is picked. -/
theorem pick_isSome {i : Interval} {scale : ℤ} (hden : 0 < i.den)
    (h : ∀ d : ℕ, (d * 10 ^ scale : ℚ) ≤ i.value / i.den → (i.value / i.den : ℚ) < (d + 1) * 10 ^ scale →
      i.contains d scale = true ∨ i.contains (d + 1) scale = true) :
    (i.pick scale).isSome = true := by
  have hdenQ : (0 : ℚ) < i.den := by exact_mod_cast hden
  have hpow : (0 : ℚ) < 10 ^ scale := zpow_pos (by norm_num) _
  have hratio : (((if 0 ≤ scale then i.value else i.value * Nat.pow 10 scale.natAbs : ℕ) : ℚ)
      / ((if 0 ≤ scale then i.den * Nat.pow 10 scale.natAbs else i.den : ℕ) : ℚ))
      = (i.value / i.den : ℚ) / 10 ^ scale := by
    rw [Nat.pow_eq]
    split
    · next hs =>
      rw [zpow_of_nonneg 10 hs]
      push_cast
      field_simp
    · next hs =>
      rw [zpow_of_neg 10 (not_le.mp hs)]
      push_cast
      field_simp
  have hpos : 0 < (if 0 ≤ scale then i.den * Nat.pow 10 scale.natAbs else i.den) := by
    rw [Nat.pow_eq]
    split <;> positivity
  unfold Interval.pick
  dsimp only
  generalize (if 0 ≤ scale then i.value else i.value * Nat.pow 10 scale.natAbs) = num at hratio ⊢
  generalize (if 0 ≤ scale then i.den * Nat.pow 10 scale.natAbs else i.den) = den at hratio hpos ⊢
  have hposQ : (0 : ℚ) < den := by exact_mod_cast hpos
  have hfloor : ((num / den : ℕ) * 10 ^ scale : ℚ) ≤ i.value / i.den := by
    rw [← le_div_iff₀ hpow, ← hratio]
    exact Nat.cast_div_le
  have hceil : (i.value / i.den : ℚ) < ((num / den : ℕ) + 1) * 10 ^ scale := by
    rw [← div_lt_iff₀ hpow, ← hratio, div_lt_iff₀ hposQ, mul_comm]
    exact_mod_cast Nat.lt_mul_div_succ num hpos
  rcases h (num / den) hfloor hceil with hc | hc
  · rw [hc]
    split <;> simp_all
  · rw [hc]
    split <;> simp_all

/-- The search returns a decimal of the interval if one of the grids that it tries has one. -/
theorem contains_of_search {i : Interval} {point : ℤ} {last : ℕ}
    (hlast : (i.pick (point - last)).isSome = true) (fuel count : ℕ) (hcount : count ≤ last)
    (hfuel : last < count + fuel) :
    i.contains (i.search point fuel count).1 (i.search point fuel count).2 = true := by
  induction fuel generalizing count with
  | zero => omega
  | succ fuel ih =>
    unfold Interval.search
    split
    · next d hd => exact contains_of_pick hd
    · next hnone =>
      have hne : count ≠ last := by
        rintro rfl
        rw [hnone] at hlast
        cases hlast
      exact ih (count + 1) (by omega) (by omega)

/-- The search for the shortest decimal of a double ends with one that rounds to the double. -/
theorem roundsTo_search {x : Double} (hzero : x.isZero = false) :
    let i := Interval.of x
    let found := i.search (pointOf i.value i.den) 17 1
    RoundsTo x (found.1 * 10 ^ found.2) := by
  intro i found
  have hden : 0 < i.den := den_pos x
  have hmagnitude : (i.value / i.den : ℚ) = x.magnitude := value_div_den x
  have hvalue : 0 < i.value := by
    have hm := one_le_significand hzero
    change 0 < 4 * x.significand * if 0 ≤ x.exponent then 1 <<< x.exponent.natAbs else 1
    rw [Nat.shiftLeft_eq]
    split <;> positivity
  have hgrid : (10 : ℚ) ^ (pointOf i.value i.den - (17 : ℕ)) * 10 ^ 16 ≤ x.magnitude := by
    calc (10 : ℚ) ^ (pointOf i.value i.den - (17 : ℕ)) * 10 ^ 16
        = 10 ^ (pointOf i.value i.den - 1) := by
          rw [← zpow_natCast, ← zpow_add₀ (by norm_num)]
          congr 1
          push_cast
          ring
      _ ≤ i.value / i.den := ten_pow_pointOf_le hvalue hden
      _ = x.magnitude := hmagnitude
  have hlast : (i.pick (pointOf i.value i.den - (17 : ℕ))).isSome = true := by
    refine pick_isSome hden fun d hd hd' => ?_
    rw [hmagnitude] at hd hd'
    rw [contains_iff hzero, contains_iff hzero]
    push_cast
    exact exists_grid_point hzero hgrid hd hd'
  rw [← contains_iff hzero]
  exact contains_of_search hlast 17 1 (by omega) (by omega)

/-! ### Digits without trailing zeros -/

open NumberFormat

/-- The digits of a number, one for each character of its decimal text. -/
def digitsOf (d : ℕ) : List ℕ := (Nat.toDigits 10 d).map fun c => c.toNat - 0x30

/-- The digits of a number are below ten. -/
theorem lt_of_mem_digitsOf {d n : ℕ} (h : n ∈ digitsOf d) : n < 10 := by
  obtain ⟨c, hc, rfl⟩ := List.mem_map.mp h
  have hdigit := Nat.isDigit_of_mem_toDigits (by norm_num) (by norm_num) hc
  simp only [Char.isDigit, Bool.and_eq_true, decide_eq_true_eq, UInt32.le_iff_toNat_le] at hdigit
  have h2 : c.toNat ≤ 57 := hdigit.2
  omega

/-- A row of digits is written with one unit for each. -/
theorem digitText_eq_map {digits : List ℕ} (h : ∀ d ∈ digits, d < 10) :
    digitText digits = digits.map CodeUnit.ofDigit := by
  induction digits with
  | nil => rfl
  | cons d rest ih =>
    have hd : Text.ofNat d = [CodeUnit.ofDigit d] := by
      have hlt := h d List.mem_cons_self
      rw [Text.ofNat_eq, if_pos hlt, Nat.mod_eq_of_lt hlt]
      rfl
    rw [digitText, List.flatMap_cons, hd, List.map_cons, List.singleton_append]
    exact congrArg _ (ih fun d hd => h d (List.mem_cons_of_mem _ hd))

/-- The digits of a number are written as its decimal text. -/
theorem digitText_digitsOf (d : ℕ) : digitText (digitsOf d) = Text.ofNat d := by
  rw [digitText_eq_map fun _ => lt_of_mem_digitsOf, digitsOf, List.map_map, Text.ofNat]
  refine List.map_congr_left fun c hc => ?_
  have hdigit := Nat.isDigit_of_mem_toDigits (by norm_num) (by norm_num) hc
  simp only [Char.isDigit, Bool.and_eq_true, decide_eq_true_eq, UInt32.le_iff_toNat_le] at hdigit
  have h1 : 48 ≤ c.toNat := hdigit.1
  rw [Function.comp_apply, CodeUnit.ofDigit, Nat.add_sub_cancel' h1]

/-- The digits of a number are its significant ones and then zeros. -/
theorem digitsOf_eq (d : ℕ) :
    ∃ z, digitsOf d = significantDigits d ++ List.replicate z 0 := by
  have hsplit : (digitsOf d).reverse = (digitsOf d).reverse.takeWhile (· == 0)
      ++ (digitsOf d).reverse.dropWhile (· == 0) := List.takeWhile_append_dropWhile.symm
  have hzeros : (digitsOf d).reverse.takeWhile (· == 0)
      = List.replicate ((digitsOf d).reverse.takeWhile (· == 0)).length 0 := by
    refine List.eq_replicate_of_mem fun n hn => ?_
    simpa using List.all_eq_true.mp List.all_takeWhile n hn
  refine ⟨((digitsOf d).reverse.takeWhile (· == 0)).length, ?_⟩
  rw [← List.reverse_replicate, ← hzeros]
  have := congrArg List.reverse hsplit
  rw [List.reverse_reverse, List.reverse_append] at this
  exact this

/-- The whole number that the digits of a decimal denote. -/
def value (d : Decimal) : ℕ := Text.digitsValue (digitText d.digits)

/-- The power of ten that the last digit of a decimal stands for. -/
def scale (d : Decimal) : ℤ := d.point - d.digits.length

/-- A decimal is fit to be printed: its digits are digits, it has one, and the first is not zero. -/
structure IsNormal (d : Decimal) : Prop where
  lt_ten : ∀ n ∈ d.digits, n < 10
  ne_nil : d.digits ≠ []
  head_ne_zero : (digitText d.digits).head? ≠ some CodeUnit.zero

/-- A row of zeros has the value zero. -/
theorem digitsValue_zeros (n : ℕ) : Text.digitsValue (zeros n) = 0 := by
  induction n with
  | zero => rfl
  | succ n ih =>
    rw [zeros, List.replicate_succ', Text.digitsValue_append]
    rw [zeros] at ih
    rw [ih]
    rfl

/-- The digits without trailing zeros of a number other than zero denote it together with the place of
the point, and they are fit to be printed. -/
theorem significantDigits_spec {d : ℕ} (hd : d ≠ 0) (s : ℤ) :
    IsNormal ⟨significantDigits d, digitCount d + s⟩ ∧
      ((value ⟨significantDigits d, digitCount d + s⟩ : ℚ)
        * 10 ^ scale ⟨significantDigits d, digitCount d + s⟩ = d * 10 ^ s) := by
  obtain ⟨z, hz⟩ := digitsOf_eq d
  have hlt : ∀ n ∈ significantDigits d, n < 10 := fun n hn =>
    lt_of_mem_digitsOf (by rw [hz]; exact List.mem_append_left _ hn)
  have htext : Text.ofNat d = digitText (significantDigits d) ++ zeros z := by
    rw [← digitText_digitsOf, hz, digitText_eq_map, List.map_append, List.map_replicate,
      ← digitText_eq_map hlt]
    · rfl
    · rw [← hz]
      exact fun _ => lt_of_mem_digitsOf
  have hvalue : d = Text.digitsValue (digitText (significantDigits d)) * 10 ^ z := by
    have := congrArg Text.digitsValue htext
    rw [Text.digitsValue_ofNat, Text.digitsValue_append, digitsValue_zeros, zeros,
      List.length_replicate] at this
    omega
  have hne : significantDigits d ≠ [] := by
    intro hnil
    rw [hnil] at hvalue
    have hzero : d = 0 * 10 ^ z := hvalue
    omega
  have hcount : digitCount d = (significantDigits d).length + z := by
    have := congrArg List.length hz
    rwa [digitsOf, List.length_map, List.length_append, List.length_replicate] at this
  refine ⟨⟨hlt, hne, ?_⟩, ?_⟩
  · have hhead := Text.head?_ofNat_ne_zero hd
    have hne' : digitText (significantDigits d) ≠ [] := by
      rw [digitText_eq_map hlt]
      simpa using hne
    rwa [htext, List.head?_append_of_ne_nil _ hne'] at hhead
  · have hscale : scale ⟨significantDigits d, digitCount d + s⟩ = z + s := by
      unfold scale
      dsimp only
      omega
    have hvalueQ : (d : ℚ) = Text.digitsValue (digitText (significantDigits d)) * 10 ^ z := by
      exact_mod_cast hvalue
    rw [hscale, zpow_add₀ (by norm_num), zpow_natCast, ← mul_assoc, hvalueQ]
    rfl

/-- The shortest decimal of a finite double other than zero is fit to be printed and rounds to the
double. -/
theorem shortest_spec {x : Double} (hx : x.isFinite = true) (hzero : x.isZero = false) :
    IsNormal (shortest x) ∧ RoundsTo x ((shortest x).value * 10 ^ (shortest x).scale) := by
  have hround := roundsTo_search hzero
  dsimp only at hround
  unfold shortest
  dsimp only
  generalize (Interval.of x).search (pointOf (Interval.of x).value (Interval.of x).den) 17 1 = found
    at hround ⊢
  obtain ⟨d, s⟩ := found
  obtain ⟨hnormal, hvalue⟩ := significantDigits_spec (hround.digits_ne_zero hx hzero) s
  refine ⟨hnormal, ?_⟩
  rw [hvalue]
  exact hround

end Decimal

end SwiftLens
