import SwiftLens.Fault
import SwiftLens.Proofs.Source.Characters

/-!
# Ranges of a file's bytes

What a range of bytes reads as (`Sources.readRange`), for files of two kinds.

In a file of characters a range is read just when it goes from one boundary to another, and it reads as the
characters between them (`readRange_of_characters`). Whether an end of the range is a boundary is decided by
the one byte that stands there.

In a file of arbitrary bytes two ranges of which one begins where the other ends read as their union does,
and a range that is the whole file reads as the whole file (`readRange_adjacent`). What makes this true is
that no byte after an end of a range continues a character, so that the decoder, whatever it holds at that
point, goes on from there as from the beginning.
-/

namespace SwiftLens

open Utf8 (bytesOf IsBoundary)

namespace Source

variable {size : Nat} {offset length : Double}

/-- A range is accepted if it is given by numbers of bytes and lies in the file. -/
theorem range?_eq_some_iff {o l : Nat} :
    range? size offset length = some (o, l) ↔
      offset.toInt? = some (o : Int) ∧ length.toInt? = some (l : Int) ∧ o + l ≤ size := by
  unfold range?
  split
  · next o' l' ho hl =>
    constructor
    · intro h
      obtain ⟨hle, heq⟩ := Option.ite_none_right_eq_some.mp h
      obtain ⟨rfl, rfl⟩ := Prod.mk.inj (Option.some.inj heq)
      exact ⟨ho, hl, hle⟩
    · rintro ⟨ho', hl', hle⟩
      obtain rfl : o' = o := Int.ofNat.inj (Option.some.inj (ho.symm.trans ho'))
      obtain rfl : l' = l := Int.ofNat.inj (Option.some.inj (hl.symm.trans hl'))
      rw [if_pos hle]
  · next hnone => exact iff_of_false (by simp) fun h => hnone o l h.1 h.2.1

/-- When a range of bytes is read, and as what. -/
theorem slice_eq_ok_iff {file text : Text} {bytes : Utf8.Bytes} :
    slice file bytes offset length = .ok text ↔ ∃ o l : Nat,
      offset.toInt? = some (o : Int) ∧ length.toInt? = some (l : Int) ∧ o + l ≤ bytes.length ∧
      isInsideCharacter bytes o = false ∧ isInsideCharacter bytes (o + l) = false ∧
      text = Utf8.decode ((bytes.drop o).take l) := by
  unfold slice
  rcases hrange : range? bytes.length offset length with _ | ⟨o, l⟩
  · refine iff_of_false (by simp) ?_
    rintro ⟨o, l, ho, hl, hle, -⟩
    rw [range?_eq_some_iff.mpr ⟨ho, hl, hle⟩] at hrange
    cases hrange
  · obtain ⟨ho, hl, hle⟩ := range?_eq_some_iff.mp hrange
    have hunique : ∀ o' l' : Nat, offset.toInt? = some (o' : Int) → length.toInt? = some (l' : Int) →
        o' = o ∧ l' = l := by
      intro o' l' ho' hl'
      rw [ho] at ho'
      rw [hl] at hl'
      exact ⟨(Int.ofNat.inj (Option.some.inj ho')).symm, (Int.ofNat.inj (Option.some.inj hl')).symm⟩
    dsimp only
    split_ifs with hsplit
    · refine iff_of_false (by simp) ?_
      rintro ⟨o', l', ho', hl', -, hbegin, hend, -⟩
      obtain ⟨rfl, rfl⟩ := hunique o' l' ho' hl'
      simp [hbegin, hend] at hsplit
    · rw [Bool.or_eq_true, not_or, Bool.not_eq_true, Bool.not_eq_true] at hsplit
      constructor
      · intro h
        exact ⟨o, l, ho, hl, hle, hsplit.1, hsplit.2, (Except.ok.inj h).symm⟩
      · rintro ⟨o', l', ho', hl', -, -, -, rfl⟩
        obtain ⟨rfl, rfl⟩ := hunique o' l' ho' hl'
        rfl

/-- A byte at the beginning of a range that does not begin inside a character. -/
theorem not_isContinuation_of_head {bytes : Utf8.Bytes} {n : Nat} (h : isInsideCharacter bytes n = false)
    (l : Nat) : ∀ b ∈ ((bytes.drop n).take l).head?, Utf8.isContinuation b = false := by
  intro b hb
  have hat : bytes[n]? = some b := by
    rw [List.head?_take] at hb
    split_ifs at hb
    · cases hb
    · rwa [List.head?_drop] at hb
  rwa [isInsideCharacter, hat] at h

end Source

namespace Sources

variable (sources : Sources) {file : Text}

/-- A range of a file that can be read is sliced out of its bytes. -/
theorem readRange_of_contents {bytes : Utf8.Bytes} (h : sources.contents file = .ok bytes)
    (offset length : Double) : sources.readRange file offset length = Source.slice file bytes offset length := by
  rw [readRange, h]

/-- Where a range was read, the file could be read. -/
theorem exists_contents_of_readRange {offset length : Double} {text : Text}
    (h : sources.readRange file offset length = .ok text) : ∃ bytes, sources.contents file = .ok bytes := by
  rw [readRange] at h
  cases hcontents : sources.contents file with
  | error e =>
    rw [hcontents] at h
    cases h
  | ok bytes => exact ⟨bytes, rfl⟩

/-! ### Files of characters -/

/-- A file that is kept in memory as characters holds them in UTF-8. -/
theorem contents_ofTexts {files : Entries Text} {t : List Char}
    (h : files.get? file = some (Text.ofChars t)) : (ofTexts files).contents file = .ok (bytesOf t) := by
  simp only [ofTexts, h, Utf8.encode_ofChars]

/-- An offset and a length are those of a range of characters: they are numbers of bytes, the range lies in
the file, and it begins and ends at a boundary. -/
structure IsCharacterRange (t : List Char) (offset length : Double) (o l : Nat) : Prop where
  offset : offset.toInt? = some (o : Int)
  length : length.toInt? = some (l : Int)
  inside : o + l ≤ (bytesOf t).length
  begins : IsBoundary t o
  ends : IsBoundary t (o + l)

/-- In a file that holds characters in UTF-8, a range is read just when it is a range of characters, and it
reads as the one row of characters of the file that is encoded by the bytes of the range. Any other range
cannot be read. -/
theorem readRange_of_characters (t : List Char) (hfile : sources.contents file = .ok (bytesOf t))
    (offset length : Double) :
    ((∃ text, sources.readRange file offset length = .ok text) ↔
      ∃ o l, IsCharacterRange t offset length o l) ∧
    (∀ o l, IsCharacterRange t offset length o l → ∃ within, within <:+: t ∧
      bytesOf within = ((bytesOf t).drop o).take l ∧
      sources.readRange file offset length = .ok (Text.ofChars within) ∧
      ∀ other, bytesOf other = ((bytesOf t).drop o).take l → other = within) ∧
    ∀ defect, sources.readRange file offset length = .error defect →
      (Fault.source defect).code? = some .sourceRead := by
  have hread : ∀ o l, IsCharacterRange t offset length o l →
      sources.readRange file offset length = .ok (Utf8.decode (((bytesOf t).drop o).take l)) := by
    intro o l h
    rw [readRange_of_contents sources hfile, Source.slice_eq_ok_iff]
    exact ⟨o, l, h.offset, h.length, h.inside, (Utf8.isBoundary_iff h.begins.le).mp h.begins,
      (Utf8.isBoundary_iff h.inside).mp h.ends, rfl⟩
  refine ⟨⟨?_, ?_⟩, ?_, fun _ _ => rfl⟩
  · rintro ⟨text, htext⟩
    rw [readRange_of_contents sources hfile, Source.slice_eq_ok_iff] at htext
    obtain ⟨o, l, ho, hl, hle, hbegin, hend, -⟩ := htext
    exact ⟨o, l, ho, hl, hle, (Utf8.isBoundary_iff (by omega)).mpr hbegin, (Utf8.isBoundary_iff hle).mpr hend⟩
  · rintro ⟨o, l, h⟩
    exact ⟨_, hread o l h⟩
  · intro o l h
    obtain ⟨before, within, after, rfl, rfl, rfl⟩ := Utf8.exists_between h.begins h.ends
    have hslice := Utf8.slice_bytesOf before within after
    refine ⟨within, ⟨before, after, rfl⟩, hslice.symm, ?_, ?_⟩
    · rw [hread _ _ h, hslice, Utf8.decode_bytesOf]
    · intro other hother
      rw [hslice] at hother
      exact Utf8.bytesOf_injective hother

/-- A letter of two bytes: the two are read as the letter, the first alone is not read. -/
theorem readRange_of_characters_greek :
    let sources := Sources.ofTexts [("a", "let π")]
    sources.contents "a" = .ok (bytesOf ['l', 'e', 't', ' ', 'π']) ∧
      sources.readRange "a" (Double.ofNat 4) (Double.ofNat 2) = .ok "π" ∧
      ¬∃ text, sources.readRange "a" (Double.ofNat 4) (Double.ofNat 1) = .ok text := by
  intro sources
  have hfile : sources.contents "a" = .ok (bytesOf ['l', 'e', 't', ' ', 'π']) := contents_ofTexts rfl
  have hfour : (Double.ofNat 4).toInt? = some ((4 : Nat) : Int) := by decide +kernel
  have htwo : (Double.ofNat 2).toInt? = some ((2 : Nat) : Int) := by decide +kernel
  have hone : (Double.ofNat 1).toInt? = some ((1 : Nat) : Int) := by decide +kernel
  refine ⟨hfile, ?_, ?_⟩
  · obtain ⟨-, hread, -⟩ := readRange_of_characters sources _ hfile (Double.ofNat 4) (Double.ofNat 2)
    obtain ⟨within, -, -, htext, hunique⟩ := hread 4 2
      ⟨hfour, htwo, by decide, ⟨['l', 'e', 't', ' '], ['π'], rfl, rfl⟩,
        ⟨['l', 'e', 't', ' ', 'π'], [], rfl, rfl⟩⟩
    rw [htext, ← hunique ['π'] rfl]
    rfl
  · obtain ⟨hiff, -⟩ := readRange_of_characters sources _ hfile (Double.ofNat 4) (Double.ofNat 1)
    rw [hiff]
    rintro ⟨o, l, h⟩
    obtain rfl : o = 4 := Int.ofNat.inj (Option.some.inj (h.offset.symm.trans hfour))
    obtain rfl : l = 1 := Int.ofNat.inj (Option.some.inj (h.length.symm.trans hone))
    exact absurd ((Utf8.isBoundary_iff h.inside).mp h.ends) (by decide)

/-! ### Files of any bytes -/

/-- Two ranges of which the second begins where the first ends, together. The numbers may be any doubles that
equal the integers. A range that is the whole file reads as the whole file. -/
theorem readRange_adjacent (sources : Sources) (file : Text) :
    (∀ (o a b : Int) (x y z w v : Double), x.toInt? = some o → y.toInt? = some a →
      z.toInt? = some (o + a) → w.toInt? = some b → v.toInt? = some (a + b) →
      ∀ first second, sources.readRange file x y = .ok first → sources.readRange file z w = .ok second →
        sources.readRange file x v = .ok (first ++ second)) ∧
    ∀ bytes, sources.contents file = .ok bytes → ∀ x n : Double, x.toInt? = some 0 →
      n.toInt? = some (bytes.length : Int) → ∀ text, sources.readRange file x n = .ok text →
        sources.readAll file = .ok text := by
  refine ⟨?_, ?_⟩
  · intro o a b x y z w v hx hy hz hw hv first second hfirst hsecond
    obtain ⟨bytes, hbytes⟩ := exists_contents_of_readRange sources hfirst
    rw [readRange_of_contents sources hbytes, Source.slice_eq_ok_iff] at hfirst hsecond ⊢
    obtain ⟨o', a', ho, ha, -, hbegin, -, rfl⟩ := hfirst
    obtain ⟨m, b', hm, hb, hle, hmiddle, hend, rfl⟩ := hsecond
    rw [hx] at ho
    rw [hy] at ha
    rw [hz] at hm
    rw [hw] at hb
    obtain rfl : o = o' := Option.some.inj ho
    obtain rfl : a = a' := Option.some.inj ha
    obtain rfl : b = b' := Option.some.inj hb
    obtain rfl : m = o' + a' := by have := Option.some.inj hm; omega
    refine ⟨o', a' + b', hx, by rw [hv]; push_cast; rfl, by omega, hbegin, ?_, ?_⟩
    · rwa [← Nat.add_assoc]
    · rw [List.take_add, List.drop_drop,
        Utf8.decode_append _ (Source.not_isContinuation_of_head hmiddle b')]
  · intro bytes hbytes x n hx hn text htext
    rw [readRange_of_contents sources hbytes, Source.slice_eq_ok_iff] at htext
    obtain ⟨o, l, ho, hl, -, -, -, rfl⟩ := htext
    rw [hx] at ho
    rw [hn] at hl
    obtain rfl : o = 0 := by have := Option.some.inj ho; omega
    obtain rfl : l = bytes.length := by have := Option.some.inj hl; omega
    rw [readAll, hbytes, List.drop_zero, List.take_length]
    rfl

/-- A character that breaks off, and a letter: each is read, and so are the two together. -/
theorem readRange_adjacent_broken :
    let sources : Sources := ⟨fun _ => .ok [0xE2, 0x82, 0x41]⟩
    sources.readRange "a" (Double.ofNat 0) (Double.ofNat 2) = .ok "\uFFFD" ∧
      sources.readRange "a" (Double.ofNat 2) (Double.ofNat 1) = .ok "A" ∧
      sources.readRange "a" (Double.ofNat 0) (Double.ofNat 3) = .ok "\uFFFDA" ∧
      sources.readAll "a" = .ok "\uFFFDA" := by
  intro sources
  have hzero : (Double.ofNat 0).toInt? = some 0 := by decide +kernel
  have hone : (Double.ofNat 1).toInt? = some 1 := by decide +kernel
  have htwo : (Double.ofNat 2).toInt? = some 2 := by decide +kernel
  have hthree : (Double.ofNat 3).toInt? = some 3 := by decide +kernel
  have hbroken : sources.readRange "a" (Double.ofNat 0) (Double.ofNat 2) = .ok "\uFFFD" := by decide +kernel
  have hletter : sources.readRange "a" (Double.ofNat 2) (Double.ofNat 1) = .ok "A" := by decide +kernel
  obtain ⟨hjoin, hwhole⟩ := readRange_adjacent sources "a"
  have hboth := hjoin 0 2 1 _ _ _ _ _ hzero htwo htwo hone hthree _ _ hbroken hletter
  exact ⟨hbroken, hletter, hboth, hwhole _ rfl _ _ hzero hthree _ hboth⟩

end Sources

end SwiftLens
