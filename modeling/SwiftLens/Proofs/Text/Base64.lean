import Mathlib
import SwiftLens.Text.Base64

/-!
# Base64 reads back

`decode?_encode`: whatever the bytes and however many there are, their base64 text is accepted and
denotes them.

A base64 text is split into the numbers below 64 whose letters it shows (`sextets`) and its padding
(`pads`); `encode_eq` says that the text is just these two. The letters are recognised one by one and
the padding is not made of letters, so that reading finds both parts again, and `pack_sextets` puts
the bytes together. The three statements about bytes go along the recursion of `encode`, whose cases
are the lengths modulo three.
-/

namespace SwiftLens.Base64

/-! ### Letters -/

/-- The letter of a number is read as that number. -/
theorem sextet?_letter {n : Nat} (h : n < 64) : sextet? (letter n) = some n := by
  interval_cases n <;> rfl

/-- The padding is no letter. -/
theorem sextet?_equals : sextet? CodeUnit.equals = none := rfl

/-! ### The two parts of a text -/

/-- The numbers whose letters stand in the text of a byte string. -/
def sextets : Utf8.Bytes → List Nat
  | [] => []
  | [a] => [a.toNat / 4, a.toNat % 4 * 16]
  | [a, b] => [a.toNat / 4, a.toNat % 4 * 16 + b.toNat / 16, b.toNat % 16 * 4]
  | a :: b :: c :: rest =>
    [a.toNat / 4, a.toNat % 4 * 16 + b.toNat / 16, b.toNat % 16 * 4 + c.toNat / 64, c.toNat % 64]
      ++ sextets rest

/-- The number of `=` at the end of the text of a byte string. -/
def pads : Utf8.Bytes → Nat
  | [] => 0
  | [_] => 2
  | [_, _] => 1
  | _ :: _ :: _ :: rest => pads rest

/-- The text of a byte string is letters and then padding. -/
theorem encode_eq (bytes : Utf8.Bytes) :
    encode bytes = (sextets bytes).map letter ++ List.replicate (pads bytes) CodeUnit.equals := by
  fun_induction encode bytes with
  | case1 => rfl
  | case2 a => rfl
  | case3 a b => rfl
  | case4 a b c rest ih => simp [sextets, pads, ih]

/-- Every number of a text has a letter. -/
theorem lt_of_mem_sextets (bytes : Utf8.Bytes) : ∀ n ∈ sextets bytes, n < 64 := by
  fun_induction sextets bytes with
  | case1 => simp
  | case2 a =>
    have ha := a.toNat_lt
    simp only [List.forall_mem_cons, List.not_mem_nil, false_implies, implies_true, and_true]
    omega
  | case3 a b =>
    have ha := a.toNat_lt
    have hb := b.toNat_lt
    simp only [List.forall_mem_cons, List.not_mem_nil, false_implies, implies_true, and_true]
    omega
  | case4 a b c rest ih =>
    have ha := a.toNat_lt
    have hb := b.toNat_lt
    have hc := c.toNat_lt
    simp only [List.cons_append, List.nil_append, List.forall_mem_cons]
    exact ⟨by omega, by omega, by omega, by omega, ih⟩

/-- The padding is at most two units long. -/
theorem pads_le (bytes : Utf8.Bytes) : pads bytes ≤ 2 := by
  fun_induction pads bytes with
  | case1 => omega
  | case2 => omega
  | case3 => omega
  | case4 _ _ _ _ ih => exact ih

/-! ### Putting the bytes together -/

/-- A byte is known by its number. -/
theorem ofNat_eq_of_toNat {n : Nat} {a : UInt8} (h : n = a.toNat) : UInt8.ofNat n = a := by
  rw [h, UInt8.ofNat_toNat]

/-- The numbers of a byte string hold its bytes. -/
theorem pack_sextets (bytes : Utf8.Bytes) : pack (sextets bytes) = bytes := by
  fun_induction sextets bytes with
  | case1 => rfl
  | case2 a =>
    have hfirst : a.toNat / 4 * 4 + a.toNat % 4 * 16 / 16 = a.toNat := by omega
    simp only [pack, ofNat_eq_of_toNat hfirst]
  | case3 a b =>
    have hb := b.toNat_lt
    have hfirst : a.toNat / 4 * 4 + (a.toNat % 4 * 16 + b.toNat / 16) / 16 = a.toNat := by omega
    have hsecond : (a.toNat % 4 * 16 + b.toNat / 16) % 16 * 16 + b.toNat % 16 * 4 / 4
        = b.toNat := by omega
    simp only [pack, ofNat_eq_of_toNat hfirst, ofNat_eq_of_toNat hsecond]
  | case4 a b c rest ih =>
    have hb := b.toNat_lt
    have hc := c.toNat_lt
    have hfirst : a.toNat / 4 * 4 + (a.toNat % 4 * 16 + b.toNat / 16) / 16 = a.toNat := by omega
    have hsecond : (a.toNat % 4 * 16 + b.toNat / 16) % 16 * 16
        + (b.toNat % 16 * 4 + c.toNat / 64) / 4 = b.toNat := by omega
    have hthird : (b.toNat % 16 * 4 + c.toNat / 64) % 4 * 64 + c.toNat % 64 = c.toNat := by omega
    simp only [List.cons_append, List.nil_append, pack, ofNat_eq_of_toNat hfirst,
      ofNat_eq_of_toNat hsecond, ofNat_eq_of_toNat hthird, ih]

/-! ### Reading a text -/

/-- The letters of numbers below 64 are letters. -/
theorem isSome_sextet?_of_mem {ns : List Nat} (h : ∀ n ∈ ns, n < 64) :
    ∀ c ∈ ns.map letter, (sextet? c).isSome = true := by
  intro c hc
  obtain ⟨n, hn, rfl⟩ := List.mem_map.mp hc
  rw [sextet?_letter (h n hn), Option.isSome_some]

/-- Reading letters gives back their numbers. -/
theorem filterMap_sextet?_letter {ns : List Nat} (h : ∀ n ∈ ns, n < 64) :
    (ns.map letter).filterMap sextet? = ns := by
  rw [List.filterMap_map]
  calc ns.filterMap (sextet? ∘ letter) = ns.filterMap some :=
        List.filterMap_congr fun n hn => sextet?_letter (h n hn)
    _ = ns := List.filterMap_some

/-- Letters followed by at most two `=` are accepted, and denote the bytes that their numbers hold. -/
theorem decode?_letters {ns : List Nat} (h : ∀ n ∈ ns, n < 64) {p : Nat} (hp : p ≤ 2) :
    decode? (ns.map letter ++ List.replicate p CodeUnit.equals) = some (pack ns) := by
  have hletters := isSome_sextet?_of_mem h
  have htake : letters (ns.map letter ++ List.replicate p CodeUnit.equals) = ns.map letter := by
    rw [letters, List.takeWhile_append_of_pos hletters, List.takeWhile_replicate, sextet?_equals]
    simp
  have hdrop : padding (ns.map letter ++ List.replicate p CodeUnit.equals) =
      List.replicate p CodeUnit.equals := by
    rw [padding, List.dropWhile_append_of_pos hletters, List.dropWhile_replicate, sextet?_equals]
    simp
  have haccepted : isAccepted (ns.map letter ++ List.replicate p CodeUnit.equals) = true := by
    rw [isAccepted, hdrop, List.length_replicate]
    simp [hp]
  rw [decode?, if_pos haccepted, htake, filterMap_sextet?_letter h]

/-- The base64 text of a byte string is accepted and denotes that byte string. -/
theorem decode?_encode (bytes : Utf8.Bytes) : decode? (encode bytes) = some bytes := by
  rw [encode_eq, decode?_letters (lt_of_mem_sextets bytes) (pads_le bytes), pack_sextets]

end SwiftLens.Base64
