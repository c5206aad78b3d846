import SwiftLens.Proofs.Text.Utf8

/-!
# Texts that encoding keeps

A text may hold half of a surrogate pair, which no bytes stand for: encoding replaces it. `IsWhole` says of
a text that it is made of whole characters, one scalar value after the other. Such a text is what its own
bytes are decoded to (`IsWhole.decode_encode`), also after other bytes (`IsWhole.decode_append_encode`),
and its bytes do not depend on what follows it (`IsWhole.encode_append`).

Whole texts are closed under concatenation, which texts without halves that stand alone are as well; but
the proof from the scalar values is a concatenation of lists, with no cases for what meets at the border.
-/

namespace SwiftLens.Utf8

/-- The text consists of scalar values, so that no half of a surrogate pair stands alone in it. -/
def IsWhole (t : Text) : Prop :=
  ∃ points : List Nat, (∀ n ∈ points, IsScalar n) ∧ t = points.flatMap Text.ofCodePoint

/-! ### Whole texts -/

/-- The empty text has no half of a surrogate pair. -/
theorem isWhole_nil : IsWhole [] := ⟨[], List.forall_mem_nil _, rfl⟩

/-- Two texts of scalar values are one together. -/
theorem IsWhole.append {t u : Text} (ht : IsWhole t) (hu : IsWhole u) : IsWhole (t ++ u) := by
  obtain ⟨points, hpoints, rfl⟩ := ht
  obtain ⟨points', hpoints', rfl⟩ := hu
  exact ⟨points ++ points', List.forall_mem_append.mpr ⟨hpoints, hpoints'⟩, List.flatMap_append.symm⟩

/-- The text of a scalar value is whole. -/
theorem isWhole_ofCodePoint {n : Nat} (h : IsScalar n) : IsWhole (Text.ofCodePoint n) :=
  ⟨[n], by simpa using h, by simp⟩

/-- The characters of a string are scalar values. -/
theorem isWhole_ofString (s : String) : IsWhole (Text.ofString s) := by
  refine ⟨s.toList.map Char.toNat, fun n hn => ?_, by rw [List.flatMap_map, Text.ofString]⟩
  obtain ⟨c, -, rfl⟩ := List.mem_map.mp hn
  rcases c.valid with h | ⟨hlow, hhigh⟩
  · exact .inl h
  · exact .inr ⟨hlow, hhigh⟩

/-- A unit that is no surrogate is a text of its own. -/
theorem isWhole_singleton {c : CodeUnit} (hhigh : ¬c.isHighSurrogate = true)
    (hlow : ¬c.isLowSurrogate = true) : IsWhole [c] := by
  have hlt := c.toNat_lt
  rw [isHighSurrogate_iff] at hhigh
  rw [isLowSurrogate_iff] at hlow
  have hscalar : IsScalar c.toNat := by
    unfold IsScalar
    omega
  have hunit : Text.ofCodePoint c.toNat = [c] := by
    rw [Text.ofCodePoint, if_pos hlt, UInt16.ofNat_toNat]
  exact hunit ▸ isWhole_ofCodePoint hscalar

/-- The two halves of a surrogate pair are the text of one scalar value. -/
theorem isWhole_pair {c d : CodeUnit} (hc : c.isHighSurrogate = true) (hd : d.isLowSurrogate = true) :
    IsWhole [c, d] := by
  rw [isHighSurrogate_iff] at hc
  rw [isLowSurrogate_iff] at hd
  obtain ⟨n, hn⟩ : ∃ n, n = 0x10000 + (c.toNat - 0xD800) * 0x400 + (d.toNat - 0xDC00) := ⟨_, rfl⟩
  have hscalar : IsScalar n := by
    unfold IsScalar
    omega
  have hhigh : 0xD800 + (n - 0x10000) / 0x400 = c.toNat := by omega
  have hlow : 0xDC00 + (n - 0x10000) % 0x400 = d.toNat := by omega
  have hpair : Text.ofCodePoint n = [c, d] := by
    rw [Text.ofCodePoint, if_neg (by omega), hhigh, hlow, UInt16.ofNat_toNat, UInt16.ofNat_toNat]
  exact hpair ▸ isWhole_ofCodePoint hscalar

/-- A text of units below the surrogates is whole. -/
theorem isWhole_of_lt {t : Text} (h : ∀ c ∈ t, c.toNat < 0xD800) : IsWhole t := by
  induction t with
  | nil => exact isWhole_nil
  | cons c rest ih =>
    have hc := h c List.mem_cons_self
    have hunit : IsWhole [c] := by
      refine isWhole_singleton ?_ ?_
      · rw [isHighSurrogate_iff]
        omega
      · rw [isLowSurrogate_iff]
        omega
    exact hunit.append (ih fun d hd => h d (List.mem_cons_of_mem c hd))

/-! ### Their bytes -/

/-- What stands after a text of scalar values is encoded apart from it. -/
theorem IsWhole.encode_append {t : Text} (h : IsWhole t) (u : Text) :
    encode (t ++ u) = encode t ++ encode u := by
  obtain ⟨points, hpoints, rfl⟩ := h
  induction points with
  | nil => rfl
  | cons n points ih =>
    obtain ⟨hn, hrest⟩ := List.forall_mem_cons.mp hpoints
    rw [List.flatMap_cons, List.append_assoc, encode_ofCodePoint_append hn, ih hrest,
      encode_ofCodePoint_append hn, List.append_assoc]

/-- A whole text is what its bytes are decoded to. -/
theorem IsWhole.decode_encode {t : Text} (h : IsWhole t) : decode (encode t) = t := by
  obtain ⟨points, hpoints, rfl⟩ := h
  induction points with
  | nil => rfl
  | cons n points ih =>
    obtain ⟨hn, hrest⟩ := List.forall_mem_cons.mp hpoints
    rw [List.flatMap_cons, encode_ofCodePoint_append hn, decode_encodePoint_append hn, ih hrest]

/-- The first byte of a character does not continue another one. -/
theorem isContinuation_head_encodePoint {n : Nat} (h : IsScalar n) (rest : Bytes) :
    ∀ b ∈ (encodePoint n ++ rest).head?, isContinuation b = false := by
  unfold IsScalar at h
  have hlead : ∀ m, m < 256 → m < 0x80 ∨ 0xC0 ≤ m → isContinuation (UInt8.ofNat m) = false := by
    intro m hm hout
    have hbyte : (UInt8.ofNat m).toNat = m := UInt8.toNat_ofNat_of_lt' hm
    rw [isContinuation, Bool.and_eq_false_iff, decide_eq_false_iff_not, decide_eq_false_iff_not,
      UInt8.not_le, UInt8.not_le, UInt8.lt_iff_toNat_lt, UInt8.lt_iff_toNat_lt, hbyte]
    show m < 0x80 ∨ 0xBF < m
    omega
  unfold encodePoint
  split_ifs <;> simp only [List.cons_append, List.head?_cons, Option.mem_some_iff, forall_eq'] <;>
    exact hlead _ (by omega) (by omega)

/-- The encoding of a text of scalar values begins with a byte that begins a character. -/
theorem isContinuation_head_encode {t : Text} (h : IsWhole t) :
    ∀ b ∈ (encode t).head?, isContinuation b = false := by
  obtain ⟨points, hpoints, rfl⟩ := h
  cases points with
  | nil => exact fun b hb => absurd hb (by simp [encode])
  | cons n points =>
    rw [List.flatMap_cons, encode_ofCodePoint_append (hpoints n List.mem_cons_self)]
    exact isContinuation_head_encodePoint (hpoints n List.mem_cons_self) _

/-- After any bytes, those of a whole text are decoded to that text. -/
theorem IsWhole.decode_append_encode {t : Text} (h : IsWhole t) (front : Bytes) :
    decode (front ++ encode t) = decode front ++ t := by
  rw [decode_append front (isContinuation_head_encode h), h.decode_encode]

end SwiftLens.Utf8
