import SwiftLens.Proofs.Json.Compact
import SwiftLens.Proofs.Number.Whole
import SwiftLens.Proofs.Text.ScalarValues

/-!
# Values that survive being written

`Json.parse?_write_of_isFaithful` says which values are read back from their text as they were: those whose
numbers are finite and not the negative zero, and whose objects list each key once and in property order,
as the objects of a program do. Keys that are array indices are allowed, where `HasPlainKeys` forbids them.

Between writing and reading, a text goes through the bytes of a file. Nothing is lost there: every written
value is a text of whole characters (`isWhole_write`), because halves of surrogate pairs that stand alone
are escaped.
-/

namespace SwiftLens.Json

open CodeUnit Text Utf8

/-! ### Written texts are whole -/

/-- Printable characters are no halves of surrogate pairs. -/
theorem isWhole_of_isPrintable {t : Text} (h : isPrintable t = true) : IsWhole t := by
  rw [isPrintable, List.all_eq_true] at h
  refine isWhole_of_lt fun c hc => ?_
  have hprintable := h c hc
  simp only [Bool.and_eq_true, decide_eq_true_eq, UInt16.lt_iff_toNat_lt] at hprintable
  exact Nat.lt_trans hprintable.2 (by decide)

/-- Unless it is a surrogate, a unit is whole as it stands in a written string. -/
theorem isWhole_escape {c : CodeUnit} (hhigh : ¬c.isHighSurrogate = true)
    (hlow : ¬c.isLowSurrogate = true) : IsWhole (escape c) := by
  unfold escape
  split_ifs
  · exact isWhole_ofString _
  · exact isWhole_ofString _
  · exact isWhole_ofString _
  · exact isWhole_ofString _
  · exact isWhole_ofString _
  · exact isWhole_ofString _
  · exact isWhole_ofString _
  · exact (isWhole_ofString _).append (isWhole_of_isPrintable (isPrintable_hex4 c))
  · exact isWhole_singleton hhigh hlow

/-- An escaped unit is no half of a surrogate pair. -/
theorem isWhole_escapeAlone (c : CodeUnit) : IsWhole (escapeAlone c) := by
  unfold escapeAlone
  split_ifs with h
  · exact (isWhole_ofString _).append (isWhole_of_isPrintable (isPrintable_hex4 c))
  · rw [Bool.or_eq_true, not_or] at h
    exact isWhole_escape h.1 h.2

/-- An escaped text consists of scalar values. -/
theorem isWhole_escapeAll (t : Text) : IsWhole (escapeAll t) := by
  fun_induction escapeAll t with
  | case1 => exact isWhole_nil
  | case2 c => exact isWhole_escapeAlone c
  | case3 c d rest hpair ih =>
    rw [Bool.and_eq_true] at hpair
    exact (isWhole_pair hpair.1 hpair.2).append ih
  | case4 c d rest _ ih => exact (isWhole_escapeAlone c).append ih

/-- A string is written in scalar values. -/
theorem isWhole_writeString (t : Text) : IsWhole (writeString t) :=
  ((isWhole_ofString _).append (isWhole_escapeAll t)).append (isWhole_ofString _)

/-- A number is written in scalar values. -/
theorem isWhole_writeNumber (x : Double) : IsWhole (writeNumber x) := by
  unfold writeNumber
  split
  · exact isWhole_of_isPrintable (NumberFormat.isPrintable_text _ x)
  · exact isWhole_ofString _

mutual

/-- A written value is made of whole characters. -/
theorem isWhole_write : (j : Json Double) → IsWhole (write j)
  | .null | .bool true | .bool false => isWhole_ofString _
  | .number x => isWhole_writeNumber x
  | .string t => isWhole_writeString t
  | .array items => ((isWhole_ofString _).append (isWhole_writeItems items)).append (isWhole_ofString _)
  | .object members =>
      ((isWhole_ofString _).append (isWhole_writeMembers members)).append (isWhole_ofString _)

/-- Items are written in scalar values. -/
theorem isWhole_writeItems : (items : List (Json Double)) → IsWhole (writeItems items)
  | [] => isWhole_nil
  | [item] => isWhole_write item
  | item :: next :: rest =>
      ((isWhole_write item).append (isWhole_ofString _)).append (isWhole_writeItems (next :: rest))

/-- Members are written in scalar values. -/
theorem isWhole_writeMembers : (members : List (Text × Json Double)) → IsWhole (writeMembers members)
  | [] => isWhole_nil
  | [(key, value)] =>
      ((isWhole_writeString key).append (isWhole_ofString _)).append (isWhole_write value)
  | (key, value) :: next :: rest =>
      ((((isWhole_writeString key).append (isWhole_ofString _)).append (isWhole_write value)).append
        (isWhole_ofString _)).append (isWhole_writeMembers (next :: rest))

end

/-! ### Values that are read back as they were -/

mutual

/-- The numbers of the value are finite and not the negative zero, and its objects are entries in property
order: no key stands twice, and the array indices come first. -/
def IsFaithful : Json Double → Prop
  | number x => x.isFinite = true ∧ x ≠ Double.zero true
  | array items => ItemsAreFaithful items
  | object members => (Entries.keys members).Nodup ∧ Entries.inPropertyOrder members = members ∧
      MembersAreFaithful members
  | _ => True

/-- The items survive being written. -/
def ItemsAreFaithful : List (Json Double) → Prop
  | [] => True
  | item :: rest => IsFaithful item ∧ ItemsAreFaithful rest

/-- The values of the members survive being written. -/
def MembersAreFaithful : List (Text × Json Double) → Prop
  | [] => True
  | (_, value) :: rest => IsFaithful value ∧ MembersAreFaithful rest

end

/-- Members with distinct keys, none of which is an array index, are in property order as they stand. -/
theorem isFaithful_object {members : List (Text × Json Double)} (hnodup : (Entries.keys members).Nodup)
    (hplain : ∀ key ∈ Entries.keys members, Entries.index? key = none)
    (h : MembersAreFaithful members) : IsFaithful (object members) :=
  ⟨hnodup, Entries.inPropertyOrder_of_plain hplain, h⟩

mutual

/-- The document that a faithful value is written as means that value. -/
theorem evaluate_numerals_of_isFaithful : (j : Json Double) → IsFaithful j → evaluate j.numerals = j
  | .null, _ | .bool _, _ | .string _, _ => rfl
  | .number x, h => by
      rw [numerals, if_pos h.1, evaluate, Double.toDouble_numeral h.1, Double.asWritten_of_ne h.2]
  | .array items, h => by
      rw [numerals, evaluate, evaluateItems_numerals_of_faithful items h]
  | .object members, h => by
      obtain ⟨hnodup, horder, hvalues⟩ := h
      rw [numerals, evaluate, evaluateMembers_numerals_of_faithful members hvalues,
        Entries.ofPairs_of_nodup hnodup, horder]

/-- Items that survive being written have the same values afterwards. -/
theorem evaluateItems_numerals_of_faithful : (items : List (Json Double)) → ItemsAreFaithful items →
    evaluateItems (itemsNumerals items) = items
  | [], _ => rfl
  | item :: rest, h => by
      rw [itemsNumerals, evaluateItems, evaluate_numerals_of_isFaithful item h.1,
        evaluateItems_numerals_of_faithful rest h.2]

/-- Members that survive being written have the same values afterwards. -/
theorem evaluateMembers_numerals_of_faithful : (members : List (Text × Json Double)) →
    MembersAreFaithful members → evaluateMembers (membersNumerals members) = members
  | [], _ => rfl
  | (key, value) :: rest, h => by
      rw [membersNumerals, evaluateMembers, evaluate_numerals_of_isFaithful value h.1,
        evaluateMembers_numerals_of_faithful rest h.2]

end

/-- A faithful value is read back from its text as it was. -/
theorem parse?_write_of_isFaithful {j : Json Double} (h : j.IsFaithful) : parse? j.write = some j := by
  have hread := (reads_write j).read? nothing_isSeparator
  rw [List.append_nil] at hread
  rw [parse?, hread, Option.map_some, evaluate_numerals_of_isFaithful j h]

end SwiftLens.Json
