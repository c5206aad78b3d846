import SwiftLens.Proofs.Text.Utf8
import SwiftLens.Source

/-!
# Characters in bytes

A text of Unicode scalar values is a list of characters, and `Utf8.bytesOf` lists its UTF-8 bytes, character
by character. Such bytes are decoded to the characters that they encode and to nothing else
(`decode_bytesOf`), and no two lists of characters have the same bytes (`bytesOf_injective`).

`IsBoundary` says of a position among the bytes that it lies between two characters, or at an end of the
text. Of a character only the first byte is not a continuation (`exists_lead`), so one byte tells: a position
up to the end is a boundary just when no continuation stands there (`isBoundary_iff`).
-/

namespace SwiftLens

/-- The text of a list of characters. -/
def Text.ofChars (t : List Char) : Text := t.flatMap fun c => Text.ofCodePoint c.toNat

namespace Utf8

/-- The UTF-8 bytes of a list of characters. -/
def bytesOf (t : List Char) : Bytes := t.flatMap String.utf8EncodeChar

/-- No characters have no bytes. -/
@[simp] theorem bytesOf_nil : bytesOf [] = [] := rfl

/-- The bytes of the first character come before those of the others. -/
theorem bytesOf_cons (c : Char) (t : List Char) : bytesOf (c :: t) = String.utf8EncodeChar c ++ bytesOf t :=
  rfl

/-- The bytes of two texts stand one after the other. -/
theorem bytesOf_append (t u : List Char) : bytesOf (t ++ u) = bytesOf t ++ bytesOf u := List.flatMap_append

/-! ### One character -/

/-- The code point of a character is a scalar value. -/
theorem isScalar_char (c : Char) : IsScalar c.toNat := by
  have hvalid : c.toNat < 0xD800 ∨ 0xDFFF < c.toNat ∧ c.toNat < 0x110000 := c.valid
  unfold IsScalar
  omega

/-- A character is encoded as its code point. -/
theorem encodePoint_char (c : Char) : encodePoint c.toNat = String.utf8EncodeChar c := by
  have hscalar := isScalar_char c
  have hval : c.val.toNat = c.toNat := rfl
  unfold IsScalar at hscalar
  unfold encodePoint String.utf8EncodeChar
  simp only [hval, Nat.add_comm (_ % _)]
  generalize c.toNat = n at hscalar ⊢
  by_cases hone : n < 0x80
  · rw [if_pos hone, if_pos (show n ≤ 0x7f by omega)]
  rw [if_neg hone, if_neg (show ¬n ≤ 0x7f by omega)]
  by_cases htwo : n < 0x800
  · rw [if_pos htwo, if_pos (show n ≤ 0x7ff by omega), Nat.mod_eq_of_lt (show n / 64 < 0x20 by omega)]
  rw [if_neg htwo, if_neg (show ¬n ≤ 0x7ff by omega)]
  by_cases hthree : n < 0x10000
  · rw [if_pos hthree, if_pos (show n ≤ 0xffff by omega),
      Nat.mod_eq_of_lt (show n / 4096 < 0x10 by omega)]
  rw [if_neg hthree, if_neg (show ¬n ≤ 0xffff by omega),
    Nat.mod_eq_of_lt (show n / 262144 < 0x08 by omega)]

/-- The bytes that continue a character. -/
theorem isContinuation_iff (b : UInt8) : isContinuation b = true ↔ 0x80 ≤ b.toNat ∧ b.toNat ≤ 0xBF := by
  simp [isContinuation, UInt8.le_iff_toNat_le]

/-- Each byte of a character after its first continues it. -/
theorem isContinuation_tail (m : Nat) : isContinuation (UInt8.ofNat (0x80 + m % 0x40)) = true := by
  rw [isContinuation_iff, toNat_tail]
  omega

/-- Of the bytes of a character the first is not a continuation, and all others are. -/
theorem exists_lead (c : Char) : ∃ lead tail, String.utf8EncodeChar c = lead :: tail ∧
    isContinuation lead = false ∧ ∀ b ∈ tail, isContinuation b = true := by
  have hscalar := isScalar_char c
  unfold IsScalar at hscalar
  have hlead : ∀ m, m < 256 → m < 0x80 ∨ 0xBF < m → isContinuation (UInt8.ofNat m) = false := by
    intro m hm hout
    rw [← Bool.not_eq_true, isContinuation_iff, UInt8.toNat_ofNat_of_lt' hm]
    omega
  rw [← encodePoint_char, encodePoint]
  split_ifs
  all_goals
    refine ⟨_, _, rfl, hlead _ (by omega) (by omega), ?_⟩
    simp only [List.forall_mem_cons, isContinuation_tail, List.not_mem_nil, false_implies, implies_true,
      and_self]

/-! ### Decoding and encoding -/

/-- The bytes of a text are decoded to it. -/
theorem decode_bytesOf (t : List Char) : decode (bytesOf t) = Text.ofChars t := by
  induction t with
  | nil => rfl
  | cons c t ih =>
    rw [bytesOf_cons, ← encodePoint_char, decode_encodePoint_append (isScalar_char c), ih]
    rfl

/-- What is kept in memory as a text of characters are the bytes of these characters. -/
theorem encode_ofChars (t : List Char) : encode (Text.ofChars t) = bytesOf t := by
  induction t with
  | nil => rfl
  | cons c t ih =>
    have hcons : Text.ofChars (c :: t) = Text.ofCodePoint c.toNat ++ Text.ofChars t := rfl
    rw [hcons, encode_ofCodePoint_append (isScalar_char c), encodePoint_char, ih, bytesOf_cons]

/-- Different texts have different bytes. -/
theorem bytesOf_injective {t u : List Char} (h : bytesOf t = bytesOf u) : t = u := by
  have hstring : String.ofList t = String.ofList u := by
    rw [← String.toByteArray_inj, String.toByteArray_ofList, String.toByteArray_ofList]
    exact congrArg List.toByteArray h
  rw [← String.toList_ofList (l := t), hstring, String.toList_ofList]

/-- Only the empty text has no bytes. -/
theorem eq_nil_of_length_bytesOf {t : List Char} (h : (bytesOf t).length = 0) : t = [] :=
  bytesOf_injective (List.eq_nil_of_length_eq_zero h)

/-! ### Boundaries -/

/-- A position among the bytes of characters lies between two of them, or at an end. -/
def IsBoundary (t : List Char) (position : Nat) : Prop :=
  ∃ before after, t = before ++ after ∧ (bytesOf before).length = position

/-- The beginning is a boundary. -/
theorem isBoundary_zero (t : List Char) : IsBoundary t 0 := ⟨[], t, rfl, rfl⟩

/-- After the first character come the boundaries of the others. -/
theorem isBoundary_cons_iff (c : Char) (t : List Char) {position : Nat} (h : 0 < position) :
    IsBoundary (c :: t) position ↔ (String.utf8EncodeChar c).length ≤ position ∧
      IsBoundary t (position - (String.utf8EncodeChar c).length) := by
  constructor
  · rintro ⟨before, after, heq, rfl⟩
    cases before with
    | nil => cases h
    | cons d before =>
      obtain ⟨rfl, rfl⟩ := List.cons.inj heq
      rw [bytesOf_cons, List.length_append]
      exact ⟨Nat.le_add_right _ _, before, after, rfl, (Nat.add_sub_cancel_left ..).symm⟩
  · rintro ⟨hle, before, after, rfl, hlength⟩
    refine ⟨c :: before, after, rfl, ?_⟩
    rw [bytesOf_cons, List.length_append, hlength, Nat.add_sub_cancel' hle]

/-- A boundary lies inside the bytes or at their end. -/
theorem IsBoundary.le {t : List Char} {position : Nat} (h : IsBoundary t position) :
    position ≤ (bytesOf t).length := by
  obtain ⟨before, after, rfl, rfl⟩ := h
  rw [bytesOf_append, List.length_append]
  exact Nat.le_add_right _ _

/-- A boundary is told by the byte that stands there. -/
theorem isBoundary_iff {t : List Char} {position : Nat} (h : position ≤ (bytesOf t).length) :
    IsBoundary t position ↔ Source.isInsideCharacter (bytesOf t) position = false := by
  induction t generalizing position with
  | nil =>
    obtain rfl : position = 0 := Nat.le_zero.mp h
    exact iff_of_true (isBoundary_zero []) rfl
  | cons c t ih =>
    obtain ⟨lead, tail, hbytes, hlead, htail⟩ := exists_lead c
    rw [bytesOf_cons, hbytes] at h ⊢
    by_cases hzero : position = 0
    · subst hzero
      exact iff_of_true (isBoundary_zero _) hlead
    rw [isBoundary_cons_iff c t (by omega), hbytes]
    by_cases hinside : position < (lead :: tail).length
    · -- a byte after the first of the character
      obtain ⟨k, rfl⟩ : ∃ k, position = k + 1 := ⟨position - 1, by omega⟩
      have hk : k < tail.length := Nat.lt_of_succ_lt_succ hinside
      refine iff_of_false (fun hle => absurd hle.1 (by omega)) ?_
      have hat : ((lead :: tail) ++ bytesOf t)[k + 1]? = some tail[k] := by
        rw [List.getElem?_append_left hinside, List.getElem?_cons_succ, List.getElem?_eq_getElem hk]
      rw [Source.isInsideCharacter, hat]
      simp [htail _ (List.getElem_mem hk)]
    · rw [List.length_append] at h
      have hat : Source.isInsideCharacter ((lead :: tail) ++ bytesOf t) position =
          Source.isInsideCharacter (bytesOf t) (position - (lead :: tail).length) := by
        rw [Source.isInsideCharacter, Source.isInsideCharacter, List.getElem?_append_right (by omega)]
      rw [hat, ← ih (by omega)]
      exact and_iff_right (by omega)

/-- Between two boundaries stand characters of the text. -/
theorem exists_between {t : List Char} {o l : Nat} (hbegin : IsBoundary t o) (hend : IsBoundary t (o + l)) :
    ∃ before within after, t = before ++ within ++ after ∧ (bytesOf before).length = o ∧
      (bytesOf within).length = l := by
  obtain ⟨before, rest, hfirst, hbefore⟩ := hbegin
  obtain ⟨front, after, hsecond, hfront⟩ := hend
  rw [hfirst] at hsecond
  rcases List.append_eq_append_iff.mp hsecond with ⟨within, rfl, rfl⟩ | ⟨within, rfl, rfl⟩
  · rw [bytesOf_append, List.length_append] at hfront
    refine ⟨before, within, after, ?_, hbefore, by omega⟩
    rw [hfirst, List.append_assoc]
  · -- the second boundary is not before the first, so the two are one
    rw [bytesOf_append, List.length_append] at hbefore
    obtain rfl := eq_nil_of_length_bytesOf (t := within) (by omega)
    rw [bytesOf_nil, List.length_nil] at hbefore
    rw [List.append_nil] at hfirst
    exact ⟨front, [], rest, by rwa [List.append_nil], by omega, by rw [bytesOf_nil, List.length_nil]; omega⟩

/-- The bytes between two boundaries are those of the characters between them. -/
theorem slice_bytesOf (before within after : List Char) :
    ((bytesOf (before ++ within ++ after)).drop (bytesOf before).length).take (bytesOf within).length =
      bytesOf within := by
  rw [bytesOf_append, bytesOf_append, List.append_assoc, List.drop_left, List.take_left]

end Utf8

end SwiftLens
