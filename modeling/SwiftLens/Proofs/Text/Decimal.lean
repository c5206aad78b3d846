import Mathlib
import SwiftLens.Text

/-!
# Decimal texts read back

The decimal text of a number is taken apart again by the readers of `Text`: `toNat?_ofNat` for natural
numbers and `toInt?_ofInt` for integers, both without any bound on the number.

The argument follows the recursion on the last digit. `ofNat_eq` writes a number as the text of its
tenth part and one more digit, `digitsValue_append` evaluates a row of digits in two parts, and
everything else is an induction along these two. The text of a number has no superfluous leading zero
(`head?_ofNat_ne_zero`), which the stricter grammar of numerals in JSON asks for.

Rows of digits of one length are ordered as texts the way that their numbers are
(`lt_of_digitsValue_lt`).
-/

namespace SwiftLens

/-! ### Single digits -/

namespace CodeUnit

/-- The unit of a digit. -/
def ofDigit (d : Nat) : CodeUnit := UInt16.ofNat (0x30 + d)

/-- The number of the unit of a digit. -/
theorem toNat_ofDigit {d : Nat} (h : d < 10) : (ofDigit d).toNat = 0x30 + d := by
  rw [ofDigit, UInt16.toNat_ofNat']
  omega

/-- The unit of a digit is a digit. -/
theorem isDigit_ofDigit {d : Nat} (h : d < 10) : (ofDigit d).isDigit = true := by
  have hn := toNat_ofDigit h
  simp only [isDigit, Bool.and_eq_true, decide_eq_true_eq, UInt16.le_iff_toNat_le, hn]
  simp only [UInt16.reduceToNat]
  omega

/-- The unit of a digit has the value of that digit. -/
theorem digitValue_ofDigit {d : Nat} (h : d < 10) : (ofDigit d).digitValue = d := by
  rw [digitValue, toNat_ofDigit h]
  omega

/-- The unit of the character that stands for a digit. -/
theorem ofNat_digitChar {d : Nat} (h : d < 10) :
    UInt16.ofNat (Nat.digitChar d).toNat = ofDigit d := by
  interval_cases d <;> rfl

/-- Only the digit zero has the unit of zero. -/
theorem ofDigit_eq_zero_iff {d : Nat} (h : d < 10) : ofDigit d = zero ↔ d = 0 := by
  have hzero : zero.toNat = 0x30 := rfl
  rw [← UInt16.toNat_inj, toNat_ofDigit h, hzero]
  omega

end CodeUnit

namespace Text

open CodeUnit

/-! ### The digits of a number -/

/-- A digit stands for a number less than ten. -/
theorem exists_ofDigit {c : CodeUnit} (h : c.isDigit = true) : ∃ d < 10, c = ofDigit d := by
  simp only [isDigit, Bool.and_eq_true, decide_eq_true_eq, UInt16.le_iff_toNat_le] at h
  simp only [UInt16.reduceToNat] at h
  refine ⟨c.toNat - 0x30, by omega, ?_⟩
  rw [← UInt16.toNat_inj, toNat_ofDigit (by omega)]
  omega

/-- A number is written as its tenth part, unless that is zero, and its last digit. -/
theorem ofNat_eq (n : Nat) :
    ofNat n = (if n < 10 then [] else ofNat (n / 10)) ++ [ofDigit (n % 10)] := by
  unfold ofNat
  rw [Nat.toDigits_eq_if (by omega)]
  split
  · next h => simp [ofNat_digitChar h, Nat.mod_eq_of_lt h]
  · simp [ofNat_digitChar (Nat.mod_lt n (by omega : 0 < 10))]

/-- The value of two rows of digits, one after the other. -/
theorem digitsValue_append (a b : Text) :
    digitsValue (a ++ b) = digitsValue a * 10 ^ b.length + digitsValue b := by
  have general : ∀ (b : Text) (n : Nat), b.foldl (fun n c => 10 * n + c.digitValue) n
      = n * 10 ^ b.length + b.foldl (fun n c => 10 * n + c.digitValue) 0 := by
    intro b
    induction b with
    | nil => intro n; simp
    | cons c b ih =>
      intro n
      rw [List.foldl_cons, List.foldl_cons, ih, ih (10 * 0 + c.digitValue), List.length_cons]
      ring
  rw [digitsValue, List.foldl_append, general]
  rfl

/-- The value of a single digit. -/
@[simp] theorem digitsValue_ofDigit {d : Nat} (h : d < 10) : digitsValue [ofDigit d] = d := by
  simp [digitsValue, digitValue_ofDigit h]

/-- The digits of a number are digits. -/
theorem all_isDigit_ofNat (n : Nat) : (ofNat n).all CodeUnit.isDigit = true := by
  induction n using Nat.strongRecOn with
  | _ n ih =>
    rw [ofNat_eq, List.all_append]
    have hlast : [ofDigit (n % 10)].all CodeUnit.isDigit = true := by
      simp [isDigit_ofDigit (Nat.mod_lt n (by omega : 0 < 10))]
    split
    · simpa using hlast
    · next h => rw [ih (n / 10) (by omega), hlast, Bool.and_self]

/-- The digits of a number denote that number. -/
theorem digitsValue_ofNat (n : Nat) : digitsValue (ofNat n) = n := by
  induction n using Nat.strongRecOn with
  | _ n ih =>
    have hlast : digitsValue [ofDigit (n % 10)] = n % 10 :=
      digitsValue_ofDigit (Nat.mod_lt n (by omega))
    rw [ofNat_eq, digitsValue_append, hlast]
    split
    · simp [digitsValue]; omega
    · next h => rw [ih (n / 10) (by omega), List.length_singleton]; omega

/-- A number has at least one digit. -/
theorem ofNat_ne_nil (n : Nat) : ofNat n ≠ [] := by
  rw [ofNat_eq]
  simp

/-- A number other than zero does not begin with the digit zero. -/
theorem head?_ofNat_ne_zero {n : Nat} (h : n ≠ 0) : (ofNat n).head? ≠ some CodeUnit.zero := by
  induction n using Nat.strongRecOn with
  | _ n ih =>
    rw [ofNat_eq]
    split
    · have hd : n % 10 < 10 := Nat.mod_lt n (by omega)
      simp only [List.nil_append, List.head?_cons, ne_eq, Option.some.injEq,
        ofDigit_eq_zero_iff hd]
      omega
    · rw [List.head?_append_of_ne_nil _ (ofNat_ne_nil _)]
      exact ih (n / 10) (by omega) (by omega)

/-! ### Digits in order -/

/-- The first digit counts by its place. -/
theorem digitsValue_cons (c : CodeUnit) (t : Text) :
    digitsValue (c :: t) = c.digitValue * 10 ^ t.length + digitsValue t := by
  rw [← List.singleton_append, digitsValue_append]
  simp [digitsValue]

/-- Digits stand for a number with no more places. -/
theorem digitsValue_lt {t : Text} (h : t.all isDigit = true) : digitsValue t < 10 ^ t.length := by
  induction t with
  | nil => decide
  | cons c t ih =>
    obtain ⟨hc, ht⟩ := Bool.and_eq_true_iff.mp h
    obtain ⟨d, hd, rfl⟩ := exists_ofDigit hc
    have hrest := ih ht
    rw [digitsValue_cons, digitValue_ofDigit hd, List.length_cons, pow_succ]
    nlinarith

/-- Of two rows of digits of one length, the one that denotes the lesser number comes first. -/
theorem lt_of_digitsValue_lt {s t : Text} (hs : s.all isDigit = true) (ht : t.all isDigit = true)
    (hlength : s.length = t.length) (h : digitsValue s < digitsValue t) : s < t := by
  induction s generalizing t with
  | nil =>
    obtain rfl := List.length_eq_zero_iff.mp hlength.symm
    exact absurd h (lt_irrefl _)
  | cons c s ih =>
    obtain ⟨d, t, rfl⟩ := List.exists_cons_of_length_eq_add_one hlength.symm
    obtain ⟨hc, hs'⟩ := Bool.and_eq_true_iff.mp hs
    obtain ⟨hd, ht'⟩ := Bool.and_eq_true_iff.mp ht
    obtain ⟨m, hm, rfl⟩ := exists_ofDigit hc
    obtain ⟨n, hn, rfl⟩ := exists_ofDigit hd
    have hrests : s.length = t.length := Nat.succ.inj hlength
    have hrest := digitsValue_lt ht'
    rw [digitsValue_cons, digitsValue_cons, digitValue_ofDigit hm, digitValue_ofDigit hn, hrests] at h
    rw [List.cons_lt_cons_iff, UInt16.lt_iff_toNat_lt, toNat_ofDigit hm, toNat_ofDigit hn]
    rcases Nat.lt_trichotomy m n with hlt | rfl | hgt
    · exact .inl (by omega)
    · exact .inr ⟨rfl, ih hs' ht' hrests (by omega)⟩
    · -- a greater digit in front outweighs all that follows it
      have hfront : (n + 1) * 10 ^ t.length ≤ m * 10 ^ t.length := Nat.mul_le_mul_right _ hgt
      rw [Nat.succ_mul] at hfront
      omega

/-- Where texts have beginnings of one length that are in order, so are the texts. -/
theorem append_lt_append {s t : Text} (hlength : s.length = t.length) (h : s < t) (s' t' : Text) :
    s ++ s' < t ++ t' := by
  induction s generalizing t with
  | nil =>
    obtain rfl := List.length_eq_zero_iff.mp hlength.symm
    exact absurd h (List.lt_irrefl [])
  | cons c s ih =>
    obtain ⟨d, t, rfl⟩ := List.exists_cons_of_length_eq_add_one hlength.symm
    rw [List.cons_lt_cons_iff] at h
    rw [List.cons_append, List.cons_append, List.cons_lt_cons_iff]
    exact h.imp_right fun h => ⟨h.1, ih (Nat.succ.inj hlength) h.2⟩

/-! ### Reading a number -/

/-- The text of a natural number is read as that number. -/
theorem toNat?_ofNat (n : Nat) : toNat? (ofNat n) = some n := by
  have hdigits : (ofNat n).isDigits = true := by
    simp [isDigits, all_isDigit_ofNat, ofNat_ne_nil]
  rw [toNat?, if_pos hdigits, digitsValue_ofNat]

/-- The text of a natural number does not begin with a minus sign. -/
theorem head?_ofNat_ne_minus (n : Nat) : (ofNat n).head? ≠ some CodeUnit.minus := by
  intro h
  have hmem : CodeUnit.minus ∈ ofNat n := List.mem_of_mem_head? h
  have := List.all_eq_true.mp (all_isDigit_ofNat n) _ hmem
  exact absurd this (by decide)

/-- A minus sign in front negates the natural number after it. -/
theorem toInt?_minus (digits : Text) :
    toInt? (CodeUnit.minus :: digits) = (toNat? digits).map (fun n : Nat => -(n : Int)) := by
  change Option.map _ _ = _
  cases toNat? digits <;> rfl

/-- A text without a minus sign in front is read as a natural number. -/
theorem toInt?_of_head?_ne_minus {t : Text} (h : t.head? ≠ some CodeUnit.minus) :
    toInt? t = (toNat? t).map Int.ofNat := by
  unfold toInt?
  split
  · exact absurd rfl h
  · cases toNat? t <;> rfl

/-- The text of an integer is read as that integer. -/
theorem toInt?_ofInt (n : Int) : toInt? (ofInt n) = some n := by
  unfold ofInt
  split
  · next h =>
    rw [toInt?_minus, toNat?_ofNat, Option.map_some]
    exact congrArg some (by omega)
  · next h =>
    rw [toInt?_of_head?_ne_minus (head?_ofNat_ne_minus _), toNat?_ofNat, Option.map_some]
    exact congrArg some (Int.natAbs_of_nonneg (by omega))

end Text

end SwiftLens
