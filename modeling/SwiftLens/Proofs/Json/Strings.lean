import Mathlib
import SwiftLens.Json.Reader
import SwiftLens.Json.Writer

/-!
# Written strings read back

`readString_escapeAll`: what stands between the quotation marks of a written string is read as that
string, unit for unit, and the text after the closing mark is left untouched. Nothing is asked of the
string: quotation marks, backslashes, control characters and halves of surrogate pairs that stand alone
are escaped by the writer and restored by the reader.

Reading takes one written unit at a time. `readString_plain`, `readString_short` and
`readString_hex4` say what it does with the three ways in which a unit is written, and the recursion of
`escapeAll` is followed through them.
-/

namespace SwiftLens.Json

open CodeUnit

/-! ### Hexadecimal digits -/

/-- A hexadecimal digit has the value it was written for. -/
theorem hexValue?_hexDigit {n : Nat} (h : n < 16) : hexValue? (Text.hexDigit n) = some n := by
  interval_cases n <;> rfl

/-- Four hexadecimal digits denote the unit that they were written for. -/
theorem hexUnit?_hexDigits (c : CodeUnit) :
    hexUnit? (Text.hexDigit (c.toNat / 0x1000)) (Text.hexDigit (c.toNat / 0x100 % 0x10))
      (Text.hexDigit (c.toNat / 0x10 % 0x10)) (Text.hexDigit (c.toNat % 0x10)) = some c := by
  have hc : c.toNat < 0x10000 := c.toNat_lt
  have hsum : c.toNat / 0x1000 * 0x1000 + c.toNat / 0x100 % 0x10 * 0x100
      + c.toNat / 0x10 % 0x10 * 0x10 + c.toNat % 0x10 = c.toNat := by omega
  rw [hexUnit?, hexValue?_hexDigit (by omega), hexValue?_hexDigit (by omega),
    hexValue?_hexDigit (by omega), hexValue?_hexDigit (by omega)]
  exact congrArg some (by rw [hsum, UInt16.ofNat_toNat])

/-! ### Single units -/

/-- A unit in front of a string that has been read. -/
def consUnit (c : CodeUnit) (read : Text × Text) : Text × Text := (c :: read.1, read.2)

/-- Reading a unit that stands for itself. -/
theorem readString_plain {c : CodeUnit} (hquote : c ≠ quote) (hslash : c ≠ backslash)
    (hcontrol : ¬c < 0x20) (rest : Text) :
    readString (c :: rest) = (readString rest).map (consUnit c) := by
  rw [readString.eq_def]
  split
  · next h => cases h
  · next h => cases h; exact absurd rfl hslash
  · next h => cases h; exact absurd rfl hslash
  · next h =>
    cases h
    rw [if_neg hquote, if_neg (by simp [hcontrol, hslash])]
    cases readString rest <;> rfl

/-- Reading a unit that is written as a backslash and a letter. -/
theorem readString_short {letter c : CodeUnit} (h : escaped? letter = some c) (rest : Text) :
    readString (backslash :: letter :: rest) = (readString rest).map (consUnit c) := by
  have hu : letter ≠ letterU := by
    rintro rfl
    have hnone : escaped? letterU = none := rfl
    rw [hnone] at h
    cases h
  rw [readString.eq_def]
  split
  · next h => cases h
  · next h => cases h; exact absurd rfl hu
  · next heq =>
    cases heq
    rw [h]
    cases readString rest <;> rfl
  · next hno heq => cases heq; exact absurd rfl (hno _ _ rfl)

/-- Reading a unit that is written as four hexadecimal digits. -/
theorem readString_hex4 (c : CodeUnit) (rest : Text) :
    readString (("\\u" ++ Text.hex4 c) ++ rest) = (readString rest).map (consUnit c) := by
  have hread : readString (("\\u" ++ Text.hex4 c) ++ rest) = (hexUnit?
      (Text.hexDigit (c.toNat / 0x1000)) (Text.hexDigit (c.toNat / 0x100 % 0x10))
      (Text.hexDigit (c.toNat / 0x10 % 0x10)) (Text.hexDigit (c.toNat % 0x10))).bind fun unit =>
        (readString rest).bind fun read => some (unit :: read.1, read.2) := rfl
  rw [hread, hexUnit?_hexDigits]
  cases readString rest <;> rfl

/-- Reading a unit as it is written when it is not half of a surrogate pair. -/
theorem readString_escape (c : CodeUnit) (rest : Text) :
    readString (escape c ++ rest) = (readString rest).map (consUnit c) := by
  unfold escape
  split_ifs with h1 h2 h3 h4 h5 h6 h7 h8
  · subst h1; exact readString_short rfl rest
  · subst h2; exact readString_short rfl rest
  · subst h3; exact readString_short rfl rest
  · subst h4; exact readString_short rfl rest
  · subst h5; exact readString_short rfl rest
  · subst h6; exact readString_short rfl rest
  · subst h7; exact readString_short rfl rest
  · exact readString_hex4 c rest
  · exact readString_plain h1 h2 h8 rest

/-- Reading a unit as it is written outside surrogate pairs. -/
theorem readString_escapeAlone (c : CodeUnit) (rest : Text) :
    readString (escapeAlone c ++ rest) = (readString rest).map (consUnit c) := by
  unfold escapeAlone
  split
  · exact readString_hex4 c rest
  · exact readString_escape c rest

/-- Reading a unit of the upper half of the range, such as half of a surrogate pair, that stands for
itself. -/
theorem readString_of_le {c : CodeUnit} (h : 0x8000 ≤ c.toNat) (rest : Text) :
    readString (c :: rest) = (readString rest).map (consUnit c) := by
  refine readString_plain ?_ ?_ ?_ rest
  · rintro rfl
    exact absurd h (by decide)
  · rintro rfl
    exact absurd h (by decide)
  · rw [UInt16.lt_iff_toNat_lt]
    simp only [UInt16.reduceToNat]
    omega

/-! ### Whole strings -/

/-- A written string is read back from between its quotation marks. -/
theorem readString_escapeAll (t rest : Text) :
    readString (escapeAll t ++ quote :: rest) = some (t, rest) := by
  fun_induction escapeAll t with
  | case1 => rfl
  | case2 c => rw [readString_escapeAlone]; rfl
  | case3 c d tail hpair ih =>
    rw [Bool.and_eq_true] at hpair
    have hc : 0x8000 ≤ c.toNat := by
      have := hpair.1
      simp only [isHighSurrogate, Bool.and_eq_true, decide_eq_true_eq, UInt16.le_iff_toNat_le,
        UInt16.reduceToNat] at this
      omega
    have hd : 0x8000 ≤ d.toNat := by
      have := hpair.2
      simp only [isLowSurrogate, Bool.and_eq_true, decide_eq_true_eq, UInt16.le_iff_toNat_le,
        UInt16.reduceToNat] at this
      omega
    rw [List.cons_append, List.cons_append, readString_of_le hc, readString_of_le hd, ih]
    rfl
  | case4 c d tail _ ih =>
    rw [List.append_assoc, readString_escapeAlone, ih]
    rfl

/-- A written string begins with a quotation mark. -/
theorem writeString_append (t rest : Text) :
    writeString t ++ rest = quote :: (escapeAll t ++ quote :: rest) := by
  rw [writeString, List.append_assoc, List.append_assoc]
  rfl

end SwiftLens.Json
