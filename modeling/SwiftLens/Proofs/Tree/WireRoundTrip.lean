import SwiftLens.Fault
import SwiftLens.Proofs.Text.Base64
import SwiftLens.Proofs.Text.Decimal

/-!
# The wire form reads back

`Wire.decode_encode_at`: a tree whose integers fit in 64 bits is read back from its wire form as it
was, under whatever base path the reader reports its defects. Nothing is asked of strings, bytes,
doubles or nesting.

A tree in memory bounds no integer, hence `FitsIn64Bits`; that no dictionary has a key twice is what
makes it a dictionary, and is written `HasDistinctKeys`. The proof is one recursion through trees,
items and entries. Each kind of tag is opened once (`decode_tagged_int64` and its siblings), the leaves
are the round trips of decimal texts and of base64, and for entries the statement is about all the
entries read so far: the next key is not among their keys because the keys of the whole are distinct.
-/

namespace SwiftLens

/-! ### Integers of 64 bits -/

namespace Value

mutual

/-- Every integer of the tree fits in 64 bits, with or without a sign as its kind says. -/
def FitsIn64Bits : Value → Prop
  | int64 n => -2 ^ 63 ≤ n ∧ n ≤ 2 ^ 63 - 1
  | uint64 n => 0 ≤ n ∧ n ≤ 2 ^ 64 - 1
  | array items => ItemsFitIn64Bits items
  | dictionary entries => EntriesFitIn64Bits entries
  | _ => True

/-- Every integer of every item fits in 64 bits. -/
def ItemsFitIn64Bits : List Value → Prop
  | [] => True
  | item :: rest => FitsIn64Bits item ∧ ItemsFitIn64Bits rest

/-- Every integer of every entry's value fits in 64 bits. -/
def EntriesFitIn64Bits : List (Text × Value) → Prop
  | [] => True
  | (_, value) :: rest => FitsIn64Bits value ∧ EntriesFitIn64Bits rest

end

end Value

/-! ### Keys -/

namespace Entries

variable {α : Type}

/-- A key is present when it is among the keys. -/
theorem has_iff_mem_keys (d : Entries α) (key : Text) : d.has key = true ↔ key ∈ d.keys := by
  induction d with
  | nil => simp [has, get?, keys]
  | cons entry rest ih =>
    obtain ⟨k, v⟩ := entry
    have hkeys : keys ((k, v) :: rest) = k :: keys rest := rfl
    rw [hkeys, List.mem_cons, ← ih]
    simp only [has, get?]
    split
    · next h => simp [h]
    · next h => simp [Ne.symm h]

/-- The keys of two rows of entries, one after the other. -/
@[simp] theorem keys_append (d e : Entries α) : keys (d ++ e) = keys d ++ keys e := by
  simp [keys]

/-- Where the keys of a row of entries are distinct, none of them occurs before its place. -/
theorem has_eq_false_of_nodup {before rest : Entries α} {key : Text} {value : α}
    (h : (keys (before ++ (key, value) :: rest)).Nodup) : before.has key = false := by
  rw [keys_append] at h
  rw [Bool.eq_false_iff, ne_eq, has_iff_mem_keys]
  intro hmem
  exact List.disjoint_of_nodup_append h hmem List.mem_cons_self

end Entries

namespace Wire

/-! ### Opening a tag -/

/-- What is under the tag of signed integers is read as one. -/
theorem decode_tagged_int64 (raw : Json Double) :
    decode (tagged "int64" raw) =
      Located.under (.field "int64") ((decodeInteger "int64" Text.toInt? signedRange raw).map .int64) := by
  rw [tagged, decode, if_pos rfl]

/-- What is under the tag of unsigned integers is read as one. -/
theorem decode_tagged_uint64 (raw : Json Double) :
    decode (tagged "uint64" raw) =
      Located.under (.field "uint64") ((decodeInteger "uint64" unsigned? unsignedRange raw).map .uint64) := by
  rw [tagged, decode, if_neg (by decide), if_pos rfl]

/-- What is under the tag of doubles is read as one. -/
theorem decode_tagged_double (raw : Json Double) :
    decode (tagged "double" raw) = Located.under (.field "double") ((decodeDouble raw).map .double) := by
  rw [tagged, decode, if_neg (by decide), if_neg (by decide), if_pos rfl]

/-- What is under the tag of byte strings is read as one. -/
theorem decode_tagged_data (raw : Json Double) :
    decode (tagged "data" raw) = Located.under (.field "data") ((decodeData raw).map .data) := by
  rw [tagged, decode, if_neg (by decide), if_neg (by decide), if_neg (by decide), if_pos rfl]

/-- What is under the tag of dictionaries is read as one. -/
theorem decode_tagged_dictionary (raw : Json Double) :
    decode (tagged "dictionary" raw) = Located.under (.field "dictionary") (decodeDictionary raw) := by
  rw [tagged, decode, if_neg (by decide), if_neg (by decide), if_neg (by decide),
    if_neg (by decide), if_pos rfl]

/-! ### Leaves -/

/-- An integer of a range, written so that `read` takes it apart, is read from its text. -/
theorem decodeInteger_of_read {tag t : Text} {read : Text → Option Int} {range : Int × Int} {n : Int}
    (hread : read t = some n) (hrange : range.1 ≤ n ∧ n ≤ range.2) :
    decodeInteger tag read range (.string t) = .ok n := by
  have hin : ¬(n < range.1 ∨ range.2 < n) := by omega
  simp only [decodeInteger, hread, if_neg hin]

/-- The text of an integer that is not negative is read without a sign. -/
theorem unsigned?_ofInt {n : Int} (h : 0 ≤ n) : unsigned? (Text.ofInt n) = some n := by
  have hn : ¬n < 0 := by omega
  rw [Text.ofInt, if_neg hn, unsigned?, Text.toNat?_ofNat]
  exact congrArg some (Int.natAbs_of_nonneg h)

/-- A byte string is read from its base64 text. -/
theorem decodeData_encode (bytes : Utf8.Bytes) :
    decodeData (.string (Base64.encode bytes)) = .ok bytes := by
  simp only [decodeData, Base64.decode?_encode]

/-! ### Trees -/

open Value

mutual

/-- A tree with integers of 64 bits is read back from its wire form. -/
theorem decode_encode :
    (v : Value) → HasDistinctKeys v → FitsIn64Bits v → decode (encode v) = .ok v
  | .null, _, _ => rfl
  | .bool _, _, _ => rfl
  | .string _, _, _ => rfl
  | .int64 n, _, hfits => by
      have hrange : signedRange.1 ≤ n ∧ n ≤ signedRange.2 := hfits
      rw [encode, decode_tagged_int64, decodeInteger_of_read (Text.toInt?_ofInt n) hrange]
      rfl
  | .uint64 n, _, hfits => by
      have hrange : unsignedRange.1 ≤ n ∧ n ≤ unsignedRange.2 := hfits
      rw [encode, decode_tagged_uint64, decodeInteger_of_read (unsigned?_ofInt hrange.1) hrange]
      rfl
  | .double x, _, _ => by
      rw [encode, decode_tagged_double]
      rfl
  | .data bytes, _, _ => by
      rw [encode, decode_tagged_data, decodeData_encode]
      rfl
  | .array items, hkeys, hfits => by
      rw [encode, decode, decodeItems_encodeItems items 0 hkeys hfits]
      rfl
  | .dictionary entries, hkeys, hfits => by
      rw [encode, decode_tagged_dictionary, decodeDictionary,
        decodePairs_encodeEntries entries 0 [] hkeys.1 hkeys.2 hfits]
      rfl

/-- Items are read back from their wire forms, in their order. -/
theorem decodeItems_encodeItems :
    (items : List Value) → ∀ index, ItemsHaveDistinctKeys items → ItemsFitIn64Bits items →
      decodeItems index (encodeItems items) = .ok items
  | [], _, _, _ => rfl
  | item :: rest, index, hkeys, hfits => by
      rw [encodeItems, decodeItems, decode_encode item hkeys.1 hfits.1]
      simp only [Located.under]
      rw [decodeItems_encodeItems rest (index + 1) hkeys.2 hfits.2]
      rfl

/-- Entries are read back from their pairs after the entries before them, as long as no key of them
all occurs twice. -/
theorem decodePairs_encodeEntries :
    (entries : List (Text × Value)) → ∀ (index : Nat) (before : Entries Value),
      (Entries.keys (before ++ entries)).Nodup → EntriesHaveDistinctKeys entries →
        EntriesFitIn64Bits entries →
          decodePairs index before (encodeEntries entries) = .ok (before ++ entries)
  | [], _, before, _, _, _ => by rw [encodeEntries, decodePairs, List.append_nil]
  | (key, value) :: rest, index, before, hnodup, hkeys, hfits => by
      have hnew : before.has key = false := Entries.has_eq_false_of_nodup hnodup
      rw [encodeEntries, decodePairs, hnew, decode_encode value hkeys.1 hfits.1]
      simp only [Located.under, Bool.false_eq_true, if_false]
      -- The entry just read joins those before it, so the keys of the whole stay what they were.
      rw [List.append_cons before (key, value) rest] at hnodup ⊢
      exact decodePairs_encodeEntries rest (index + 1) _ hnodup hkeys.2 hfits.2

end

/-- Whatever the base path of its defects, reading the wire form of a tree with integers of 64 bits
succeeds and gives exactly that tree. -/
theorem decode_encode_at (v : Value) (hkeys : v.HasDistinctKeys) (hfits : v.FitsIn64Bits)
    (base : Text) : (decode (encode v)).mapError (Fault.wire base) = .ok v := by
  rw [decode_encode v hkeys hfits]
  rfl

/-- A dictionary with both ends of the signed range, the greatest unsigned integer, two bytes, half a
surrogate pair as a string and an inner dictionary with one of the outer keys. -/
def sampleTree : Value :=
  .dictionary
    [("b", .array [.int64 (-2 ^ 63), .int64 (2 ^ 63 - 1), .uint64 (2 ^ 64 - 1)]),
      ("a", .dictionary [("b", .data [0xFF, 0x00]), ("a", .string [0xD800])])]

/-- The sample tree is read back from its wire form. -/
theorem decode_encode_at_sampleTree :
    (decode (encode sampleTree)).mapError (Fault.wire "$.response") = .ok sampleTree := by
  have hkeys : sampleTree.HasDistinctKeys :=
    ⟨by decide, ⟨trivial, trivial, trivial, trivial⟩, ⟨by decide, trivial, trivial, trivial⟩, trivial⟩
  have hfits : sampleTree.FitsIn64Bits := by
    simp [sampleTree, FitsIn64Bits, ItemsFitIn64Bits, EntriesFitIn64Bits]
  exact decode_encode_at sampleTree hkeys hfits "$.response"

end Wire

end SwiftLens
