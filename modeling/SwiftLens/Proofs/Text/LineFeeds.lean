import SwiftLens.Proofs.Text.Utf8

/-!
# Line feeds of bytes and of the text they decode to

A line feed is one byte and one unit of text, and the decoder never makes one of anything else. So the line
feeds of a text are those of its bytes, in number and order, and what stands between them is decoded by
itself (`exists_split_of_decode`). `upTo_lineFeed` compares how far a line feed is from the beginning in the
bytes and in the text: the text up to it takes as many bytes as there are, or more where bytes were
replaced, and exactly as many if all are the bytes of a text.
-/

namespace SwiftLens.Utf8

/-! ### Line feeds -/

/-- The position just after the line feed of the given number, counted from one. -/
def afterLineFeed : Nat → Bytes → Nat
  | 0, _ => 0
  | _ + 1, [] => 0
  | j + 1, b :: rest => if b = 0x0A then 1 + afterLineFeed j rest else 1 + afterLineFeed (j + 1) rest

/-- The position after a line feed, by the bytes before it. -/
theorem afterLineFeed_append (before after : Bytes) :
    afterLineFeed (before.count 0x0A + 1) (before ++ 0x0A :: after) = before.length + 1 := by
  induction before with
  | nil => simp [afterLineFeed]
  | cons b rest ih =>
    rw [List.cons_append, afterLineFeed, List.length_cons]
    split_ifs with h
    · rw [h, List.count_cons_self, ih]
      omega
    · rw [List.count_cons_of_ne h, ih]
      omega

/-- No line feed comes of a code point but that of the line feed. -/
theorem lineFeed_notMem_ofCodePoint {n : Nat} (h : IsScalar n) (hn : n ≠ 0x0A) :
    CodeUnit.lineFeed ∉ Text.ofCodePoint n := by
  unfold IsScalar at h
  unfold Text.ofCodePoint
  split_ifs with hsmall
  · have hunit : (0x0A : UInt16).toNat = 0x0A := rfl
    simp only [List.mem_singleton, ← UInt16.toNat_inj, UInt16.toNat_ofNat', hunit]
    omega
  · have hunit : (0x0A : UInt16).toNat = 0x0A := rfl
    simp only [List.mem_cons, List.not_mem_nil, or_false, ← UInt16.toNat_inj, UInt16.toNat_ofNat', hunit]
    omega

/-- What a line feed and what any other byte leaves, where a character may begin. -/
theorem Started.lineFeed {b : UInt8} {out : Text × Option Begun} (h : Started b out) :
    b = 0x0A ∧ out = ([CodeUnit.lineFeed], none) ∨ b ≠ 0x0A ∧ CodeUnit.lineFeed ∉ out.1 := by
  have hbyte : b = 0x0A ↔ b.toNat = 0x0A := UInt8.toNat_inj.symm
  cases h with
  | ascii h =>
    by_cases hb : b = 0x0A
    · exact .inl ⟨hb, by rw [hb]; rfl⟩
    · exact .inr ⟨hb, lineFeed_notMem_ofCodePoint (isScalar_toNat b) (mt hbyte.mpr hb)⟩
  | begun h hfits => exact .inr ⟨by rw [ne_eq, hbyte]; omega, List.not_mem_nil⟩
  | refused h => exact .inr ⟨by rw [ne_eq, hbyte]; omega, by decide⟩

/-- A line feed ends the character that has begun and stands for itself; no other byte leaves one. -/
theorem Stepped.lineFeed {b : UInt8} {state : Option Begun} {read : Nat} {out : Text × Option Begun}
    (h : Stepped b state read out) :
    b = 0x0A ∧ out = (run state [] ++ [CodeUnit.lineFeed], none) ∨
      b ≠ 0x0A ∧ CodeUnit.lineFeed ∉ out.1 := by
  have hbyte : b = 0x0A ↔ b.toNat = 0x0A := UInt8.toNat_inj.symm
  cases h with
  | fresh h => exact h.lineFeed
  | more h hfits => exact .inr ⟨by rw [ne_eq, hbyte]; omega, List.not_mem_nil⟩
  | @complete p read n h hread hscalar hlow hhigh =>
    have hn : n ≠ 0x0A := by
      rintro rfl
      unfold endOf at hhigh
      unfold leastOf at hlow
      split at hhigh <;> simp_all
    exact .inr ⟨by rw [ne_eq, hbyte]; omega, lineFeed_notMem_ofCodePoint hscalar hn⟩
  | broken hread h =>
    rcases h.lineFeed with ⟨hb, rfl⟩ | ⟨hb, hunits⟩
    · exact .inl ⟨hb, rfl⟩
    · refine .inr ⟨hb, ?_⟩
      rw [List.mem_cons, not_or]
      exact ⟨by decide, hunits⟩

/-- At the end of the bytes no line feed is made up. -/
theorem lineFeed_notMem_run_nil (state : Option Begun) : CodeUnit.lineFeed ∉ run state [] := by
  cases state with
  | none => exact List.not_mem_nil
  | some p =>
    show CodeUnit.lineFeed ∉ [replacement]
    decide

/-- A line feed that stands in a text whose front has none stands after the front. -/
theorem exists_middle {front rest before after : Text} (hfront : CodeUnit.lineFeed ∉ front)
    (h : front ++ rest = before ++ CodeUnit.lineFeed :: after) :
    ∃ middle, before = front ++ middle ∧ rest = middle ++ CodeUnit.lineFeed :: after := by
  rcases List.append_eq_append_iff.mp h with hmiddle | ⟨_ | ⟨c, middle⟩, hbefore, hrest⟩
  · exact hmiddle
  · exact ⟨[], by simpa using hbefore.symm, hrest.symm⟩
  · obtain ⟨rfl, -⟩ := List.cons.inj hrest
    simp [hbefore] at hfront

/-- Where the text has a line feed the bytes have one, and what goes before and after it is decoded by
itself. -/
theorem exists_split_of_run {state : Option Begun} {read : Nat} (hstate : Holds state read) {bytes : Bytes}
    {before after : Text} (h : run state bytes = before ++ CodeUnit.lineFeed :: after) :
    ∃ front back, bytes = front ++ 0x0A :: back ∧ run state front = before ∧ decode back = after ∧
      front.count 0x0A = before.count CodeUnit.lineFeed := by
  induction bytes generalizing state read before with
  | nil =>
    have hmem : CodeUnit.lineFeed ∈ run state [] := by simp [h]
    exact absurd hmem (lineFeed_notMem_run_nil state)
  | cons b rest ih =>
    rw [run_cons] at h
    rcases (stepped hstate b).lineFeed with ⟨rfl, hstep⟩ | ⟨hb, hunits⟩
    · have hflush := lineFeed_notMem_run_nil state
      rw [hstep, List.append_assoc] at h
      obtain ⟨_ | ⟨c, middle⟩, hbefore, hrest⟩ := exists_middle hflush h
      · rw [List.append_nil] at hbefore
        refine ⟨[], rest, rfl, hbefore.symm, (List.cons.inj hrest).2, ?_⟩
        rw [hbefore, List.count_eq_zero.mpr hflush, List.count_nil]
      · obtain ⟨rfl, hmiddle⟩ := List.cons.inj hrest
        obtain ⟨front, back, rfl, hfront, hback, hcount⟩ := ih holds_none hmiddle
        refine ⟨0x0A :: front, back, rfl, ?_, hback, ?_⟩
        · rw [run_cons, hstep, hfront, hbefore, List.append_assoc]
          rfl
        · rw [hbefore, List.count_append, List.count_cons_self, List.count_cons_self, hcount,
            List.count_eq_zero.mpr hflush, Nat.zero_add]
    · obtain ⟨middle, hbefore, hrest⟩ := exists_middle hunits h
      obtain ⟨read', hholds⟩ := holds_step hstate b
      obtain ⟨front, back, rfl, hfront, hback, hcount⟩ := ih hholds hrest
      refine ⟨b :: front, back, rfl, ?_, hback, ?_⟩
      · rw [run_cons, hfront, hbefore]
      · rw [hbefore, List.count_append, List.count_cons_of_ne hb, hcount, List.count_eq_zero.mpr hunits,
          Nat.zero_add]

/-- The line feeds of a text are those of the bytes that it was decoded from. -/
theorem exists_split_of_decode {bytes : Bytes} {before after : Text}
    (h : decode bytes = before ++ CodeUnit.lineFeed :: after) :
    ∃ front back, bytes = front ++ 0x0A :: back ∧ decode front = before ∧ decode back = after ∧
      front.count 0x0A = before.count CodeUnit.lineFeed :=
  exists_split_of_run holds_none h

/-! ### Positions of line feeds -/

/-- Bytes are decoded apart on the two sides of a line feed. -/
theorem decode_append_lineFeed (front back : Bytes) :
    decode (front ++ 0x0A :: back) = decode front ++ CodeUnit.lineFeed :: decode back :=
  decode_append front (by simp [isContinuation])

/-- Texts are encoded apart on the two sides of a line feed. -/
theorem encode_append_lineFeed (before after : Text) :
    encode (before ++ CodeUnit.lineFeed :: after) = encode before ++ 0x0A :: encode after := by
  rw [encode_append_cons before (by decide), encode_cons (by decide)]
  rfl

/-- Sizes add up at a line feed, which takes one byte. -/
theorem size_append_lineFeed (before after : Text) :
    size (before ++ CodeUnit.lineFeed :: after) = size before + (size after + 1) := by
  rw [size, encode_append_lineFeed, List.length_append, List.length_cons]
  rfl

/-- A text up to a line feed, and the bytes up to the line feed of the same number: they decode to it, they
are not more than it takes, and they are just as many if all bytes are those of a text. -/
theorem upTo_lineFeed {bytes : Bytes} {before after : Text}
    (h : decode bytes = before ++ CodeUnit.lineFeed :: after) :
    let position := afterLineFeed (before.count CodeUnit.lineFeed + 1) bytes
    decode (bytes.take position) = before ++ [CodeUnit.lineFeed] ∧
      position ≤ size (before ++ [CodeUnit.lineFeed]) ∧
      ((∃ text, bytes = encode text) → position = size (before ++ [CodeUnit.lineFeed])) := by
  obtain ⟨front, back, rfl, rfl, rfl, hcount⟩ := exists_split_of_decode h
  have hsize : size (decode front ++ [CodeUnit.lineFeed]) = size (decode front) + 1 :=
    size_append_lineFeed (decode front) []
  have hfront := length_le_size_decode front
  have hback := length_le_size_decode back
  rw [← hcount, afterLineFeed_append, hsize]
  refine ⟨?_, by omega, ?_⟩
  · have htake : (front ++ 0x0A :: back).take (front.length + 1) = front ++ [0x0A] := by
      rw [List.take_append, List.take_of_length_le (by omega)]
      simp
    rw [htake, decode_append_lineFeed]
    rfl
  · rintro ⟨text, htext⟩
    have hwhole : size (decode (front ++ 0x0A :: back)) = (front ++ 0x0A :: back).length := by
      rw [size, htext, encode_decode_encode]
    rw [h, size_append_lineFeed, List.length_append, List.length_cons] at hwhole
    omega

end SwiftLens.Utf8
