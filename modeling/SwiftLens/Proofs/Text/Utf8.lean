import Mathlib
import SwiftLens.Text.Utf8

/-!
# Bytes and the text they decode to

What the decoder holds between two bytes is a character that has begun, and the code points that it can
still become form an interval. `Begun.Fits` says which: an interval of scalar values whose encodings have
exactly as many bytes as have been read and are missing. A byte in range narrows the interval; any other
byte leaves one replacement character and is read afresh. `stepped` is the list of all that can happen.

From it follow the facts that are used. Bytes are decoded apart from those that go before them, unless
they begin inside a character (`decode_append`). A text never takes fewer bytes than it was decoded from
(`length_le_size_decode`); it may take more, since a replacement character takes three and may stand for
one. And the bytes of a text are decoded to a text of the same bytes (`encode_decode_encode`).
-/

namespace SwiftLens.Utf8

/-! ### Code points -/

/-- A code point that is not half of a surrogate pair. -/
def IsScalar (n : Nat) : Prop := n < 0xD800 ∨ 0xE000 ≤ n ∧ n < 0x110000

/-- The least code point whose encoding has the given number of bytes. -/
def leastOf : Nat → Nat
  | 2 => 0x80
  | 3 => 0x800
  | 4 => 0x10000
  | _ => 0

/-- The least code point whose encoding has more bytes than that. -/
def endOf : Nat → Nat
  | 1 => 0x80
  | 2 => 0x800
  | 3 => 0x10000
  | 4 => 0x110000
  | _ => 0

/-- The replacement character is a scalar value. -/
theorem isScalar_replacement : IsScalar 0xFFFD := .inr ⟨by decide, by decide⟩

/-- The value of a byte is a scalar value. -/
theorem isScalar_toNat (b : UInt8) : IsScalar b.toNat := .inl (by have := b.toNat_lt; omega)

/-- A code point takes the number of bytes in whose interval it lies. -/
theorem length_encodePoint {n k : Nat} (hlow : leastOf k ≤ n) (hhigh : n < endOf k) :
    (encodePoint n).length = k := by
  unfold endOf at hhigh
  unfold leastOf at hlow
  unfold encodePoint
  split at hhigh <;> split_ifs <;> simp_all <;> omega

/-! ### Encoding one code point after the other -/

/-- The units that begin a pair. -/
theorem isHighSurrogate_iff (c : CodeUnit) :
    c.isHighSurrogate = true ↔ 0xD800 ≤ c.toNat ∧ c.toNat ≤ 0xDBFF := by
  simp [CodeUnit.isHighSurrogate, UInt16.le_iff_toNat_le]

/-- The units that end a pair. -/
theorem isLowSurrogate_iff (c : CodeUnit) :
    c.isLowSurrogate = true ↔ 0xDC00 ≤ c.toNat ∧ c.toNat ≤ 0xDFFF := by
  simp [CodeUnit.isLowSurrogate, UInt16.le_iff_toNat_le]

/-- A unit that begins no pair is encoded by itself. -/
theorem encode_cons {c : CodeUnit} (h : ¬c.isHighSurrogate = true) (t : Text) :
    encode (c :: t) = encodeUnit c ++ encode t := by
  cases t with
  | nil => simp [encode]
  | cons d rest => simp [encode, h]

/-- A pair of surrogates is encoded by its code point. -/
theorem encode_pair {c d : CodeUnit} (hc : c.isHighSurrogate = true) (hd : d.isLowSurrogate = true)
    (t : Text) : encode (c :: d :: t) = encodePoint (CodeUnit.joinSurrogates c d) ++ encode t := by
  rw [encode, hc, hd]
  rfl

/-- A scalar value is encoded apart from what comes after it. -/
theorem encode_ofCodePoint_append {n : Nat} (h : IsScalar n) (t : Text) :
    encode (Text.ofCodePoint n ++ t) = encodePoint n ++ encode t := by
  unfold IsScalar at h
  by_cases hsmall : n < 0x10000
  · have hunit : (UInt16.ofNat n).toNat = n := UInt16.toNat_ofNat_of_lt' hsmall
    have hhigh : ¬CodeUnit.isHighSurrogate (UInt16.ofNat n) = true := by
      rw [isHighSurrogate_iff, hunit]
      omega
    have hlow : ¬CodeUnit.isLowSurrogate (UInt16.ofNat n) = true := by
      rw [isLowSurrogate_iff, hunit]
      omega
    rw [Text.ofCodePoint, if_pos hsmall, List.singleton_append, encode_cons hhigh, encodeUnit, hunit]
    simp [hhigh, hlow]
  · obtain ⟨c, hc, hcn⟩ : ∃ c : CodeUnit, c = UInt16.ofNat (0xD800 + (n - 0x10000) / 0x400) ∧
        c.toNat = 0xD800 + (n - 0x10000) / 0x400 :=
      ⟨_, rfl, UInt16.toNat_ofNat_of_lt' (by show _ < 65536; omega)⟩
    obtain ⟨d, hd, hdn⟩ : ∃ d : CodeUnit, d = UInt16.ofNat (0xDC00 + (n - 0x10000) % 0x400) ∧
        d.toNat = 0xDC00 + (n - 0x10000) % 0x400 :=
      ⟨_, rfl, UInt16.toNat_ofNat_of_lt' (by show _ < 65536; omega)⟩
    have hjoin : CodeUnit.joinSurrogates c d = n := by
      show 0x10000 + (c.toNat - 0xD800) * 0x400 + (d.toNat - 0xDC00) = n
      omega
    rw [Text.ofCodePoint, if_neg hsmall, ← hc, ← hd, List.cons_append, List.singleton_append,
      encode_pair ((isHighSurrogate_iff c).mpr (by omega)) ((isLowSurrogate_iff d).mpr (by omega)), hjoin]

/-- A unit that ends no pair is encoded apart from what goes before it. -/
theorem encode_append_cons (t : Text) {c : CodeUnit} (h : ¬c.isLowSurrogate = true) (u : Text) :
    encode (t ++ c :: u) = encode t ++ encode (c :: u) := by
  fun_induction encode t with
  | case1 => rfl
  | case2 d => simp [encode, h]
  | case3 d e rest hpair ih => simp_all [encode]
  | case4 d e rest hpair ih => simp_all [encode]

/-! ### Reading one byte -/

namespace Begun

/-- The least code point that a character which has begun can become. -/
def least (p : Begun) : Nat := (p.bits * 0x40 + p.low.toNat % 0x40) * 0x40 ^ (p.missing - 1)

/-- The end of the interval of code points that a character which has begun can become. -/
def bound (p : Begun) : Nat := (p.bits * 0x40 + p.high.toNat % 0x40 + 1) * 0x40 ^ (p.missing - 1)

/-- After `read` bytes, a character has begun that becomes a scalar value of the right length. -/
structure Fits (p : Begun) (read : Nat) : Prop where
  read_pos : 0 < read
  missing_pos : 0 < p.missing
  le_four : read + p.missing ≤ 4
  low : 0x80 ≤ p.low.toNat
  high : p.high.toNat ≤ 0xBF
  least : leastOf (read + p.missing) ≤ p.least
  bound : p.bound ≤ endOf (read + p.missing)
  scalar : p.bound ≤ 0xD800 ∨ 0xE000 ≤ p.least

end Begun

/-- What can come of a byte where a character may begin. -/
inductive Started (b : UInt8) : Text × Option Begun → Prop where
  | ascii (h : b.toNat < 0x80) : Started b (Text.ofCodePoint b.toNat, none)
  | begun {p : Begun} (h : 0x80 ≤ b.toNat) (hfits : p.Fits 1) : Started b ([], some p)
  | refused (h : 0x80 ≤ b.toNat) : Started b ([replacement], none)

/-- A code point of ASCII is one unit. -/
theorem ofCodePoint_toNat {b : UInt8} (h : b.toNat < 0x80) : Text.ofCodePoint b.toNat = [b.toUInt16] := by
  simp [Text.ofCodePoint, show b.toNat < 0x10000 by omega]

/-- A byte where a character may begin is one itself, begins one that fits, or is refused. -/
theorem started (b : UInt8) : Started b (start b) := by
  simp only [start, UInt8.lt_iff_toNat_lt, UInt8.le_iff_toNat_le, ← UInt8.toNat_inj, Bool.and_eq_true,
    decide_eq_true_eq, UInt8.reduceToNat]
  split_ifs with hascii
  · rw [← ofCodePoint_toNat hascii]
    exact .ascii hascii
  -- each leading byte fixes the interval, and the arithmetic of its ends is left
  iterate 7
    · refine .begun (by omega) ?_
      constructor <;> simp [Begun.least, Begun.bound, leastOf, endOf] <;> omega
  · exact .refused (by omega)

namespace Begun.Fits

variable {p : Begun} {read : Nat} {b : UInt8}

/-- The last byte gives a code point of the interval. -/
theorem complete (h : p.Fits read) (hmissing : p.missing = 1) (hlow : p.low.toNat ≤ b.toNat)
    (hhigh : b.toNat ≤ p.high.toNat) :
    IsScalar (p.bits * 0x40 + b.toNat % 0x40) ∧ leastOf (read + 1) ≤ p.bits * 0x40 + b.toNat % 0x40 ∧
      p.bits * 0x40 + b.toNat % 0x40 < endOf (read + 1) := by
  obtain ⟨hpos, -, hfour, hlow', hhigh', hleast, hbound, hscalar⟩ := h
  rw [Begun.least, hmissing] at hleast hscalar
  rw [Begun.bound, hmissing] at hbound hscalar
  have hend : endOf (read + 1) ≤ 0x110000 := by
    unfold endOf
    split <;> omega
  refine ⟨?_, ?_, ?_⟩
  · unfold IsScalar
    omega
  · omega
  · omega

/-- Any other byte in range narrows the interval. -/
theorem more (h : p.Fits read) (hmissing : p.missing ≠ 1) (hlow : p.low.toNat ≤ b.toNat)
    (hhigh : b.toNat ≤ p.high.toNat) :
    (⟨p.missing - 1, 0x80, 0xBF, p.bits * 0x40 + b.toNat % 0x40⟩ : Begun).Fits (read + 1) := by
  obtain ⟨hpos, hmissing', hfour, hlow', hhigh', hleast, hbound, hscalar⟩ := h
  obtain ⟨m, hm⟩ : ∃ m, p.missing = m + 2 := ⟨p.missing - 2, by omega⟩
  have hbytes : read + 1 + (m + 1) = read + (m + 2) := by omega
  rw [hm] at hfour hleast hbound
  rw [hm, show m + 2 - 1 = m + 1 from rfl]
  have hleast' : p.least ≤ (⟨m + 1, 0x80, 0xBF, p.bits * 0x40 + b.toNat % 0x40⟩ : Begun).least :=
    calc p.least = (p.bits * 0x40 + p.low.toNat % 0x40) * 0x40 ^ (m + 1) := by simp [Begun.least, hm]
      _ ≤ (p.bits * 0x40 + b.toNat % 0x40) * 0x40 ^ (m + 1) := Nat.mul_le_mul_right _ (by omega)
      _ = _ := by simp [Begun.least, pow_succ]; ring
  have hbound' : (⟨m + 1, 0x80, 0xBF, p.bits * 0x40 + b.toNat % 0x40⟩ : Begun).bound ≤ p.bound :=
    calc (⟨m + 1, 0x80, 0xBF, p.bits * 0x40 + b.toNat % 0x40⟩ : Begun).bound
        = (p.bits * 0x40 + b.toNat % 0x40 + 1) * 0x40 ^ (m + 1) := by simp [Begun.bound, pow_succ]; ring
      _ ≤ (p.bits * 0x40 + p.high.toNat % 0x40 + 1) * 0x40 ^ (m + 1) := Nat.mul_le_mul_right _ (by omega)
      _ = p.bound := by simp [Begun.bound, hm]
  refine ⟨by omega, Nat.succ_pos m, by show read + 1 + (m + 1) ≤ 4; omega, le_refl 0x80, le_refl 0xBF, ?_, ?_,
    hscalar.imp hbound'.trans hleast'.trans'⟩
  · rw [hbytes]
    exact hleast.trans hleast'
  · rw [hbytes]
    exact hbound'.trans hbound

end Begun.Fits

/-- The condition under which a byte goes on with a character, in numbers. -/
theorem inRange_iff (p : Begun) (b : UInt8) :
    (decide (p.low ≤ b) && decide (b ≤ p.high)) = true ↔
      p.low.toNat ≤ b.toNat ∧ b.toNat ≤ p.high.toNat := by
  simp [UInt8.le_iff_toNat_le]

/-- What can come of a byte when `read` bytes of a character have been read. -/
inductive Stepped (b : UInt8) : Option Begun → Nat → Text × Option Begun → Prop where
  | fresh {out : Text × Option Begun} (h : Started b out) : Stepped b none 0 out
  | more {p q : Begun} {read : Nat} (h : 0x80 ≤ b.toNat) (hfits : q.Fits (read + 1)) :
      Stepped b (some p) read ([], some q)
  | complete {p : Begun} {read n : Nat} (h : 0x80 ≤ b.toNat) (hread : 0 < read) (hscalar : IsScalar n)
      (hlow : leastOf (read + 1) ≤ n) (hhigh : n < endOf (read + 1)) :
      Stepped b (some p) read (Text.ofCodePoint n, none)
  | broken {p : Begun} {read : Nat} {out : Text × Option Begun} (hread : read ≤ 3)
      (h : Started b out) : Stepped b (some p) read (replacement :: out.1, out.2)

/-- The decoder holds a character of which `read` bytes have been read. -/
def Holds : Option Begun → Nat → Prop
  | none, read => read = 0
  | some p, read => p.Fits read

/-- Between characters nothing is held. -/
theorem holds_none : Holds none 0 := rfl

/-- A byte that is read where the state holds what has begun goes one of the ways given. -/
theorem stepped {state : Option Begun} {read : Nat} (h : Holds state read) (b : UInt8) :
    Stepped b state read (step state b) := by
  cases state with
  | none =>
    obtain rfl : read = 0 := h
    exact .fresh (started b)
  | some p =>
    have hfits : p.Fits read := h
    have hlow := hfits.low
    rw [step]
    split_ifs with hrange hmissing
    · rw [inRange_iff] at hrange
      obtain ⟨hscalar, hleast, hend⟩ := hfits.complete hmissing hrange.1 hrange.2
      exact .complete (by omega) hfits.read_pos hscalar hleast hend
    · rw [inRange_iff] at hrange
      exact .more (by omega) (hfits.more hmissing hrange.1 hrange.2)
    · exact .broken (by have := hfits.missing_pos; have := hfits.le_four; omega) (started b)

/-- Whatever comes of a byte, what is held afterwards fits again. -/
theorem Started.holds {b : UInt8} {out : Text × Option Begun} (h : Started b out) :
    ∃ read, Holds out.2 read := by
  cases h with
  | ascii | refused => exact ⟨0, holds_none⟩
  | begun h hfits => exact ⟨1, hfits⟩

/-- After a byte the state holds again what has begun. -/
theorem holds_step {state : Option Begun} {read : Nat} (h : Holds state read) (b : UInt8) :
    ∃ read, Holds (step state b).2 read := by
  have hstepped := stepped h b
  generalize step state b = out at hstepped ⊢
  cases hstepped with
  | fresh hstarted => exact hstarted.holds
  | more hb hfits => exact ⟨_, hfits⟩
  | complete => exact ⟨0, holds_none⟩
  | broken hread hstarted => exact hstarted.holds

/-- Bytes are read one after the other. -/
theorem run_cons (state : Option Begun) (b : UInt8) (rest : Bytes) :
    run state (b :: rest) = (step state b).1 ++ run (step state b).2 rest := by
  cases state <;> rfl

/-- Bytes that do not begin with a continuation are decoded apart from what goes before them. -/
theorem run_append {state : Option Begun} {read : Nat} (h : Holds state read) (front : Bytes) {back : Bytes}
    (hback : ∀ b ∈ back.head?, isContinuation b = false) :
    run state (front ++ back) = run state front ++ decode back := by
  induction front generalizing state read with
  | nil =>
    cases state with
    | none => rfl
    | some p =>
      cases back with
      | nil => rfl
      | cons b rest =>
        have hfits : p.Fits read := h
        have hlow := hfits.low
        have hhigh := hfits.high
        -- the bytes that go on with any character are continuations
        have hrange : ¬(decide (p.low ≤ b) && decide (b ≤ p.high)) = true := by
          have hb := hback b rfl
          simp only [isContinuation, UInt8.le_iff_toNat_le, Bool.and_eq_false_iff, decide_eq_false_iff_not,
            UInt8.reduceToNat] at hb
          rw [inRange_iff]
          omega
        rw [List.nil_append, run_cons, step, if_neg hrange]
        rfl
  | cons b rest ih =>
    obtain ⟨read', hholds⟩ := holds_step h b
    rw [List.cons_append, run_cons, run_cons, ih hholds, List.append_assoc]

/-- Bytes before one that continues no character are decoded apart from it. -/
theorem decode_append (front : Bytes) {back : Bytes} (hback : ∀ b ∈ back.head?, isContinuation b = false) :
    decode (front ++ back) = decode front ++ decode back :=
  run_append holds_none front hback

/-! ### Sizes -/

/-- The size of a scalar value is the number of its bytes. -/
theorem size_ofCodePoint_append {n : Nat} (h : IsScalar n) (t : Text) :
    size (Text.ofCodePoint n ++ t) = (encodePoint n).length + size t := by
  rw [size, encode_ofCodePoint_append h, List.length_append, size]

/-- The replacement character takes three bytes. -/
theorem size_replacement_cons (t : Text) : size (replacement :: t) = 3 + size t :=
  size_ofCodePoint_append isScalar_replacement t

/-- A byte where a character may begin is accounted for in the size of what is read, if those after it are. -/
theorem Started.length_le_size {b : UInt8} {out : Text × Option Begun} (h : Started b out) {rest : Bytes}
    (hrest : ∀ state read, Holds state read → read + rest.length ≤ size (run state rest)) :
    1 + rest.length ≤ size (out.1 ++ run out.2 rest) := by
  have hnone : rest.length ≤ size (run none rest) := Nat.zero_add rest.length ▸ hrest none 0 holds_none
  cases h with
  | ascii h =>
    have hlength : (encodePoint b.toNat).length = 1 := length_encodePoint (Nat.zero_le _) h
    rw [size_ofCodePoint_append (isScalar_toNat b), hlength]
    exact Nat.add_le_add_left hnone 1
  | begun h hfits => exact hrest _ 1 hfits
  | refused h =>
    rw [List.singleton_append, size_replacement_cons]
    exact Nat.add_le_add (by decide) hnone

/-- The text of bytes that follow `read` bytes of a character takes at least as many bytes. -/
theorem length_le_size_run {state : Option Begun} {read : Nat} (h : Holds state read) (bytes : Bytes) :
    read + bytes.length ≤ size (run state bytes) := by
  induction bytes generalizing state read with
  | nil =>
    cases state with
    | none =>
      obtain rfl : read = 0 := h
      exact Nat.le_refl 0
    | some p =>
      have hfits : p.Fits read := h
      have hfour := hfits.le_four
      have hmissing := hfits.missing_pos
      show read + 0 ≤ 3
      omega
  | cons b rest ih =>
    have hrest : ∀ state read, Holds state read → read + rest.length ≤ size (run state rest) :=
      fun _ _ => ih
    have hnone := hrest none 0 holds_none
    rw [run_cons, List.length_cons]
    generalize hout : step state b = out
    have hstepped := stepped h b
    rw [hout] at hstepped
    cases hstepped with
    | fresh hstarted =>
      have hle := hstarted.length_le_size hrest
      omega
    | @more _ q _ hb hfits =>
      have hle : read + 1 + rest.length ≤ size (run (some q) rest) := hrest (some q) (read + 1) hfits
      show _ ≤ size (run (some q) rest)
      omega
    | complete hb hread hscalar hlow hhigh =>
      rw [size_ofCodePoint_append hscalar, length_encodePoint hlow hhigh]
      show _ ≤ _ + size (run none rest)
      omega
    | @broken _ _ out hread hstarted =>
      have hle := hstarted.length_le_size hrest
      rw [List.cons_append, size_replacement_cons]
      show _ ≤ 3 + size (out.1 ++ run out.2 rest)
      omega

/-- A decoded text does not take fewer bytes than it was decoded from. -/
theorem length_le_size_decode (bytes : Bytes) : bytes.length ≤ size (decode bytes) := by
  have hle := length_le_size_run holds_none bytes
  rwa [Nat.zero_add] at hle

/-! ### Decoding what was encoded -/

/-- The last byte of a character completes it. -/
theorem run_some_last {p : Begun} {b : UInt8} (hmissing : p.missing = 1) (hlow : p.low.toNat ≤ b.toNat)
    (hhigh : b.toNat ≤ p.high.toNat) (rest : Bytes) :
    run (some p) (b :: rest) = Text.ofCodePoint (p.bits * 0x40 + b.toNat % 0x40) ++ decode rest := by
  rw [run_cons, step, if_pos ((inRange_iff p b).mpr ⟨hlow, hhigh⟩), if_pos hmissing, decode]

/-- Any other byte of a character is added to what has begun. -/
theorem run_some_more {p : Begun} {b : UInt8} (hmissing : p.missing ≠ 1) (hlow : p.low.toNat ≤ b.toNat)
    (hhigh : b.toNat ≤ p.high.toNat) (rest : Bytes) :
    run (some p) (b :: rest) =
      run (some ⟨p.missing - 1, 0x80, 0xBF, p.bits * 0x40 + b.toNat % 0x40⟩) rest := by
  rw [run_cons, step, if_pos ((inRange_iff p b).mpr ⟨hlow, hhigh⟩), if_neg hmissing, List.nil_append]

/-- A byte that begins a character leaves it begun. -/
theorem run_none_of_start {b : UInt8} {p : Begun} (h : start b = ([], some p)) (rest : Bytes) :
    run none (b :: rest) = run (some p) rest := by
  rw [run_cons, step, h, List.nil_append]

/-- A byte of ASCII is a character. -/
theorem start_one {b : UInt8} (h : b.toNat < 0x80) : start b = ([b.toUInt16], none) := by
  rw [start, if_pos (UInt8.lt_iff_toNat_lt.mpr h)]

/-- The first byte of a character of two bytes. -/
theorem start_two {b : UInt8} (hlow : 0xC2 ≤ b.toNat) (hhigh : b.toNat ≤ 0xDF) :
    start b = ([], some ⟨1, 0x80, 0xBF, b.toNat % 0x20⟩) := by
  simp only [start, UInt8.lt_iff_toNat_lt, UInt8.le_iff_toNat_le, Bool.and_eq_true, decide_eq_true_eq,
    UInt8.reduceToNat]
  rw [if_neg (by omega), if_pos ⟨hlow, hhigh⟩]

/-- The first byte of a character of three bytes; the second one has a smaller range where the code point
would be too small or a surrogate. -/
theorem start_three {b : UInt8} (hlow : 0xE0 ≤ b.toNat) (hhigh : b.toNat ≤ 0xEF) :
    ∃ low high : UInt8, start b = ([], some ⟨2, low, high, b.toNat % 0x10⟩) ∧
      low.toNat = (if b.toNat = 0xE0 then 0xA0 else 0x80) ∧
      high.toNat = (if b.toNat = 0xED then 0x9F else 0xBF) := by
  simp only [start, UInt8.lt_iff_toNat_lt, UInt8.le_iff_toNat_le, ← UInt8.toNat_inj, Bool.and_eq_true,
    decide_eq_true_eq, UInt8.reduceToNat]
  rw [if_neg (by omega), if_neg (by omega)]
  split_ifs with hfirst _ hlast
  · omega
  · exact ⟨_, _, by rw [hfirst], rfl, rfl⟩
  · exact ⟨_, _, by rw [hlast], rfl, rfl⟩
  · exact ⟨_, _, rfl, rfl, rfl⟩
  all_goals omega

/-- The first byte of a character of four bytes; the second one has a smaller range where the code point would
be too small or too great. -/
theorem start_four {b : UInt8} (hlow : 0xF0 ≤ b.toNat) (hhigh : b.toNat ≤ 0xF4) :
    ∃ low high : UInt8, start b = ([], some ⟨3, low, high, b.toNat % 0x08⟩) ∧
      low.toNat = (if b.toNat = 0xF0 then 0x90 else 0x80) ∧
      high.toNat = (if b.toNat = 0xF4 then 0x8F else 0xBF) := by
  simp only [start, UInt8.lt_iff_toNat_lt, UInt8.le_iff_toNat_le, ← UInt8.toNat_inj, Bool.and_eq_true,
    decide_eq_true_eq, UInt8.reduceToNat]
  rw [if_neg (by omega), if_neg (by omega), if_neg (by omega), if_neg (by omega), if_neg (by omega)]
  split_ifs with hfirst _ hlast
  · omega
  · exact ⟨_, _, by rw [hfirst], rfl, rfl⟩
  · exact ⟨_, _, by rw [hlast], rfl, rfl⟩
  · exact ⟨_, _, rfl, rfl, rfl⟩
  all_goals omega

/-- The value of a byte that continues a character. -/
theorem toNat_tail (m : Nat) : (UInt8.ofNat (0x80 + m % 0x40)).toNat = 0x80 + m % 0x40 :=
  UInt8.toNat_ofNat_of_lt' (by show _ < 256; omega)

/-- The last byte of an encoded character completes its code point. -/
theorem run_tail_last (bits m : Nat) (rest : Bytes) :
    run (some ⟨1, 0x80, 0xBF, bits⟩) (UInt8.ofNat (0x80 + m % 0x40) :: rest) =
      Text.ofCodePoint (bits * 0x40 + m % 0x40) ++ decode rest := by
  have hbits : (0x80 + m % 0x40) % 0x40 = m % 0x40 := by omega
  rw [run_some_last rfl, toNat_tail, hbits]
  · rw [toNat_tail]
    exact Nat.le_add_right 0x80 _
  · rw [toNat_tail]
    show _ ≤ 0xBF
    omega

/-- Any other byte of an encoded character adds six bits to its code point. -/
theorem run_tail_more (k bits m : Nat) {low high : UInt8} (hlow : low.toNat ≤ 0x80 + m % 0x40)
    (hhigh : 0x80 + m % 0x40 ≤ high.toNat) (rest : Bytes) :
    run (some ⟨k + 2, low, high, bits⟩) (UInt8.ofNat (0x80 + m % 0x40) :: rest) =
      run (some ⟨k + 1, 0x80, 0xBF, bits * 0x40 + m % 0x40⟩) rest := by
  have hbits : (0x80 + m % 0x40) % 0x40 = m % 0x40 := by omega
  rw [← toNat_tail] at hlow hhigh
  rw [run_some_more (show k + 2 ≠ 1 by omega) hlow hhigh, toNat_tail, hbits]
  rfl

/-- The bytes of a scalar value are decoded to it, whatever follows them. -/
theorem decode_encodePoint_append {n : Nat} (h : IsScalar n) (rest : Bytes) :
    decode (encodePoint n ++ rest) = Text.ofCodePoint n ++ decode rest := by
  unfold IsScalar at h
  have hbyte : ∀ m, m < 256 → (UInt8.ofNat m).toNat = m := fun m hm => UInt8.toNat_ofNat_of_lt' hm
  unfold encodePoint
  rw [decode]
  split_ifs with h1 h2 h3
  · have hlead := hbyte n (by omega)
    rw [List.singleton_append, run_cons, step, start_one (by omega), ← ofCodePoint_toNat (by omega), hlead,
      decode]
  · have hlead := hbyte (0xC0 + n / 0x40) (by omega)
    have hpoint : (0xC0 + n / 0x40) % 0x20 * 0x40 + n % 0x40 = n := by omega
    rw [List.cons_append, List.singleton_append, run_none_of_start (start_two (by omega) (by omega)),
      run_tail_last, hlead, hpoint]
  · have hlead := hbyte (0xE0 + n / 0x1000) (by omega)
    obtain ⟨low, high, hstart, hlow, hhigh⟩ :=
      start_three (show 0xE0 ≤ (UInt8.ofNat (0xE0 + n / 0x1000)).toNat by omega) (by omega)
    rw [hlead] at hstart hlow hhigh
    have hlow' : low.toNat ≤ 0x80 + n / 0x40 % 0x40 := by rw [hlow]; split_ifs <;> omega
    have hhigh' : 0x80 + n / 0x40 % 0x40 ≤ high.toNat := by rw [hhigh]; split_ifs <;> omega
    have hpoint : ((0xE0 + n / 0x1000) % 0x10 * 0x40 + n / 0x40 % 0x40) * 0x40 + n % 0x40 = n := by omega
    rw [List.cons_append, List.cons_append, List.singleton_append, run_none_of_start hstart,
      run_tail_more 0 _ _ hlow' hhigh', run_tail_last, hpoint]
  · have hlead := hbyte (0xF0 + n / 0x40000) (by omega)
    obtain ⟨low, high, hstart, hlow, hhigh⟩ :=
      start_four (show 0xF0 ≤ (UInt8.ofNat (0xF0 + n / 0x40000)).toNat by omega) (by omega)
    rw [hlead] at hstart hlow hhigh
    have hlow' : low.toNat ≤ 0x80 + n / 0x1000 % 0x40 := by rw [hlow]; split_ifs <;> omega
    have hhigh' : 0x80 + n / 0x1000 % 0x40 ≤ high.toNat := by rw [hhigh]; split_ifs <;> omega
    have hpoint : (((0xF0 + n / 0x40000) % 0x08 * 0x40 + n / 0x1000 % 0x40) * 0x40 + n / 0x40 % 0x40) * 0x40
        + n % 0x40 = n := by omega
    have hsecond : (0x80 : UInt8).toNat ≤ 0x80 + n / 0x40 % 0x40 := Nat.le_add_right _ _
    have hsecond' : 0x80 + n / 0x40 % 0x40 ≤ (0xBF : UInt8).toNat := by show _ ≤ 0xBF; omega
    rw [List.cons_append, List.cons_append, List.cons_append, List.singleton_append,
      run_none_of_start hstart, run_tail_more 1 _ _ hlow' hhigh', run_tail_more 0 _ _ hsecond hsecond',
      run_tail_last, hpoint]

/-- The code point that a unit stands for which is not part of a pair. -/
theorem exists_encodeUnit_eq (c : CodeUnit) : ∃ n, IsScalar n ∧ encodeUnit c = encodePoint n := by
  rw [encodeUnit]
  split_ifs with h
  · exact ⟨_, isScalar_replacement, rfl⟩
  · refine ⟨c.toNat, ?_, rfl⟩
    have hlt := c.toNat_lt
    rw [Bool.or_eq_true, isHighSurrogate_iff, isLowSurrogate_iff] at h
    unfold IsScalar
    omega

/-- The bytes of a scalar value stay as they are when they are decoded and encoded again. -/
theorem encode_decode_encodePoint_append {n : Nat} (h : IsScalar n) (rest : Bytes) :
    encode (decode (encodePoint n ++ rest)) = encodePoint n ++ encode (decode rest) := by
  rw [decode_encodePoint_append h, encode_ofCodePoint_append h]

/-- The bytes of a text are decoded to a text of the same bytes. -/
theorem encode_decode_encode (t : Text) : encode (decode (encode t)) = encode t := by
  fun_induction encode t with
  | case1 => rfl
  | case2 c =>
    obtain ⟨n, hn, hunit⟩ := exists_encodeUnit_eq c
    rw [hunit, ← List.append_nil (encodePoint n), encode_decode_encodePoint_append hn]
    rfl
  | case3 c d rest hpair ih =>
    rw [Bool.and_eq_true, isHighSurrogate_iff, isLowSurrogate_iff] at hpair
    have hjoin : IsScalar (CodeUnit.joinSurrogates c d) := by
      show _ < 0xD800 ∨ 0xE000 ≤ 0x10000 + (c.toNat - 0xD800) * 0x400 + (d.toNat - 0xDC00) ∧
        0x10000 + (c.toNat - 0xD800) * 0x400 + (d.toNat - 0xDC00) < 0x110000
      omega
    rw [encode_decode_encodePoint_append hjoin, ih]
  | case4 c d rest hpair ih =>
    obtain ⟨n, hn, hunit⟩ := exists_encodeUnit_eq c
    rw [hunit, encode_decode_encodePoint_append hn, ih]

end SwiftLens.Utf8
