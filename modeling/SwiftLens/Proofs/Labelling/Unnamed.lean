import SwiftLens.Proofs.Labelling.Renaming

/-!
# What labelling leaves unnamed

Labelling names what stands directly under a key and goes through arrays without looking at their
items. `every_identifier_named_iff` says what this comes to: after labelling no identifier with a name
stands under a key, and all identifiers that have a name are gone just in case none of them was an item
of an array. `item_keeps_identifier` is a tree with such an item.

The unsigned integers of a tree stand under keys or are items of arrays
(`mem_unsignedLeavesOfEntries_iff`); renaming drops those under keys that have a name and leaves the
items alone.
-/

namespace SwiftLens

namespace Labelling

open NameCache

variable {σ : Type} {f : Int → Option Text}

/-- An unsigned integer is an identifier that has a name. -/
def IsNamed (f : Int → Option Text) (uid : Int) : Prop := leastUid ≤ uid ∧ (f uid).isSome = true

/-- An unsigned integer stays when it is no identifier with a name. -/
theorem name?_eq_none_iff {uid : Int} : name? f uid = none ↔ ¬IsNamed f uid := by
  unfold name? IsNamed
  split_ifs with h
  · simp only [true_iff, not_and]
    intro hle
    omega
  · simp only [not_and, Bool.not_eq_true, Option.isSome_eq_false_iff, Option.isNone_iff_eq_none]
    constructor
    · intro hnone _
      exact hnone
    · intro hnone
      exact hnone (by omega)

mutual

/-- All unsigned integers of a tree, in reading order. -/
def unsignedLeaves : Value → List Int
  | .uint64 n => [n]
  | .array items => unsignedLeavesOfItems items
  | .dictionary entries => unsignedLeavesOfEntries entries
  | _ => []

/-- All unsigned integers of items. -/
def unsignedLeavesOfItems : List Value → List Int
  | [] => []
  | item :: rest => unsignedLeaves item ++ unsignedLeavesOfItems rest

/-- All unsigned integers of entries. -/
def unsignedLeavesOfEntries : List (Text × Value) → List Int
  | [] => []
  | (_, value) :: rest => unsignedLeaves value ++ unsignedLeavesOfEntries rest

end

mutual

/-- The unsigned integers of a tree that are items of arrays. -/
def arrayUids : Value → List Int
  | .array items => arrayUidsOfItems items
  | .dictionary entries => arrayUidsOfEntries entries
  | _ => []

/-- The unsigned integers that are among items, or items inside them. -/
def arrayUidsOfItems : List Value → List Int
  | [] => []
  | item :: rest => (ownUid item ++ arrayUids item) ++ arrayUidsOfItems rest

/-- The unsigned integers that are items inside entries. -/
def arrayUidsOfEntries : List (Text × Value) → List Int
  | [] => []
  | (_, value) :: rest => arrayUids value ++ arrayUidsOfEntries rest

end

mutual

/-- An unsigned integer of a tree is the tree itself, or stands under a key, or is an item. -/
theorem mem_unsignedLeaves_iff (uid : Int) : (value : Value) →
    (uid ∈ unsignedLeaves value ↔
      uid ∈ ownUid value ∨ uid ∈ keyedUids value ∨ uid ∈ arrayUids value)
  | .null | .bool _ | .int64 _ | .uint64 _ | .double _ | .string _ | .data _ => by
      simp [unsignedLeaves, ownUid, keyedUids, arrayUids]
  | .array items => by
      simp only [unsignedLeaves, ownUid, keyedUids, arrayUids, List.not_mem_nil, false_or]
      exact mem_unsignedLeavesOfItems_iff uid items
  | .dictionary entries => by
      simp only [unsignedLeaves, ownUid, keyedUids, arrayUids, List.not_mem_nil, false_or]
      exact mem_unsignedLeavesOfEntries_iff uid entries

/-- An unsigned integer in items stands under a key or is an item of an array. -/
theorem mem_unsignedLeavesOfItems_iff (uid : Int) : (items : List Value) →
    (uid ∈ unsignedLeavesOfItems items ↔
      uid ∈ keyedUidsOfItems items ∨ uid ∈ arrayUidsOfItems items)
  | [] => by simp [unsignedLeavesOfItems, keyedUidsOfItems, arrayUidsOfItems]
  | item :: rest => by
      simp only [unsignedLeavesOfItems, keyedUidsOfItems, arrayUidsOfItems, List.mem_append,
        mem_unsignedLeaves_iff uid item, mem_unsignedLeavesOfItems_iff uid rest]
      tauto

/-- An unsigned integer among entries stands under a key or is an item. -/
theorem mem_unsignedLeavesOfEntries_iff (uid : Int) : (entries : List (Text × Value)) →
    (uid ∈ unsignedLeavesOfEntries entries ↔
      uid ∈ keyedUidsOfEntries entries ∨ uid ∈ arrayUidsOfEntries entries)
  | [] => by simp [unsignedLeavesOfEntries, keyedUidsOfEntries, arrayUidsOfEntries]
  | (key, value) :: rest => by
      simp only [unsignedLeavesOfEntries, keyedUidsOfEntries, arrayUidsOfEntries, List.mem_append,
        mem_unsignedLeaves_iff uid value, mem_unsignedLeavesOfEntries_iff uid rest]
      tauto

end

/-- Renaming inside a value leaves the value itself as it is. -/
theorem ownUid_rename (value : Value) : ownUid (rename f value) = ownUid value := by
  cases value <;> rfl

/-- Under a key only the identifiers without a name are left. -/
theorem uids_nameUid_rename (value : Value)
    (h : keyedUids (rename f value) = (keyedUids value).filter fun uid => (name? f uid).isNone) :
    ownUid (nameUid f (rename f value)) ++ keyedUids (nameUid f (rename f value)) =
      (ownUid value ++ keyedUids value).filter fun uid => (name? f uid).isNone := by
  by_cases huid : ∃ uid, value = .uint64 uid
  · obtain ⟨uid, rfl⟩ := huid
    cases hname : name? f uid <;> simp [rename, nameUid, hname, ownUid, keyedUids]
  · have hnot : ∀ uid, value ≠ .uint64 uid := fun uid h => huid ⟨uid, h⟩
    rw [nameUid_rename_of_not_uid hnot, ownUid_rename, h, List.filter_append]
    cases value with
    | uint64 uid => exact absurd rfl (hnot uid)
    | _ => rfl

mutual

/-- The unsigned integers under keys that stay when a tree is renamed are those that have no name. -/
theorem keyedUids_rename : (value : Value) →
    keyedUids (rename f value) = (keyedUids value).filter fun uid => (name? f uid).isNone
  | .null | .bool _ | .int64 _ | .uint64 _ | .double _ | .string _ | .data _ => rfl
  | .array items => keyedUidsOfItems_rename items
  | .dictionary entries => keyedUidsOfEntries_rename entries

/-- The unsigned integers under keys that stay when items are renamed are those that have no name. -/
theorem keyedUidsOfItems_rename : (items : List Value) →
    keyedUidsOfItems (renameItems f items) =
      (keyedUidsOfItems items).filter fun uid => (name? f uid).isNone
  | [] => rfl
  | item :: rest => by
      rw [renameItems, keyedUidsOfItems, keyedUidsOfItems, List.filter_append,
        keyedUids_rename item, keyedUidsOfItems_rename rest]

/-- What stands under keys after renaming is what has no name. -/
theorem keyedUidsOfEntries_rename : (entries : List (Text × Value)) →
    keyedUidsOfEntries (renameEntries f entries) =
      (keyedUidsOfEntries entries).filter fun uid => (name? f uid).isNone
  | [] => rfl
  | (key, value) :: rest => by
      rw [renameEntries, keyedUidsOfEntries, keyedUidsOfEntries, List.filter_append,
        uids_nameUid_rename value (keyedUids_rename value), keyedUidsOfEntries_rename rest]

end

/-- What stands under a key is no item, named or not. -/
theorem arrayUids_nameUid (value : Value) : arrayUids (nameUid f value) = arrayUids value := by
  cases value with
  | uint64 uid => cases hname : name? f uid <;> simp [nameUid, hname, arrayUids]
  | _ => rfl

mutual

/-- The unsigned integers that are items of arrays stay when a tree is renamed. -/
theorem arrayUids_rename : (value : Value) → arrayUids (rename f value) = arrayUids value
  | .null | .bool _ | .int64 _ | .uint64 _ | .double _ | .string _ | .data _ => rfl
  | .array items => arrayUidsOfItems_rename items
  | .dictionary entries => arrayUidsOfEntries_rename entries

/-- The unsigned integers that are items of arrays stay when items are renamed. -/
theorem arrayUidsOfItems_rename : (items : List Value) →
    arrayUidsOfItems (renameItems f items) = arrayUidsOfItems items
  | [] => rfl
  | item :: rest => by
      rw [renameItems, arrayUidsOfItems, arrayUidsOfItems, ownUid_rename, arrayUids_rename item,
        arrayUidsOfItems_rename rest]

/-- Renaming leaves the items of arrays as they are. -/
theorem arrayUidsOfEntries_rename : (entries : List (Text × Value)) →
    arrayUidsOfEntries (renameEntries f entries) = arrayUidsOfEntries entries
  | [] => rfl
  | (key, value) :: rest => by
      rw [renameEntries, arrayUidsOfEntries, arrayUidsOfEntries, arrayUids_nameUid,
        arrayUids_rename value, arrayUidsOfEntries_rename rest]

end

/-- With fixed names and no supplement labelling succeeds and leaves no identifier with a name under a
key. No identifier with a name is left anywhere just in case none was an item of an array. -/
theorem every_identifier_named_iff (f : Int → Option Text) (note : Int → σ → σ)
    (sources : SourceReader σ) {tree : Entries Value}
    (htree : (Value.dictionary tree).HasDistinctKeys) {cache : NameCache} (hcache : cache.Agrees f)
    (s : σ) :
    ∃ labelled t,
      label ⟨fixedLookup f note, none, sources⟩ (tree, (cache, s)) = (.ok (), (labelled, t)) ∧
      (∀ uid ∈ keyedUidsOfEntries labelled, ¬IsNamed f uid) ∧
      ((∀ uid ∈ unsignedLeavesOfEntries labelled, ¬IsNamed f uid) ↔
        ∀ uid ∈ arrayUidsOfEntries tree, ¬IsNamed f uid) := by
  have hkeyed : ∀ uid ∈ keyedUidsOfEntries (renameEntries f tree), ¬IsNamed f uid := by
    intro uid huid
    rw [keyedUidsOfEntries_rename, List.mem_filter, Option.isNone_iff_eq_none] at huid
    exact name?_eq_none_iff.mp huid.2
  refine ⟨_, _, label_fixed note sources htree hcache, hkeyed, ?_⟩
  rw [← arrayUidsOfEntries_rename tree]
  constructor
  · intro h uid huid
    exact h uid ((mem_unsignedLeavesOfEntries_iff uid _).mpr (.inr huid))
  · intro h uid huid
    rcases (mem_unsignedLeavesOfEntries_iff uid _).mp huid with huid | huid
    · exact hkeyed uid huid
    · exact h uid huid

/-- In the sample every identifier under a key is named, and one in an array is not. -/
theorem every_identifier_named_iff_sampleNode : ∃ labelled t,
    label ⟨fixedLookup sampleNames writtenDown, none, Sources.ofTexts []⟩ (sampleNode, ([], [])) = (.ok (), (labelled, t)) ∧
      (∀ uid ∈ keyedUidsOfEntries labelled, ¬IsNamed sampleNames uid) ∧
      ¬∀ uid ∈ unsignedLeavesOfEntries labelled, ¬IsNamed sampleNames uid := by
  obtain ⟨labelled, t, hlabel, hkeyed, hiff⟩ := every_identifier_named_iff sampleNames
    writtenDown (Sources.ofTexts []) hasDistinctKeys_sampleNode (agrees_nil sampleNames) []
  refine ⟨labelled, t, hlabel, hkeyed, fun hnone => ?_⟩
  exact hiff.mp hnone 4300000005 (by decide) ⟨by decide, rfl⟩

/-- A node whose only identifier is an item of an array. -/
def nodeWithItem : Entries Value := [("key.kinds", .array [.uint64 4300000005])]

/-- An identifier that has a name and is an item of an array is still there after labelling. -/
theorem item_keeps_identifier :
    ∃ labelled t,
      label ⟨fixedLookup sampleNames writtenDown, none, Sources.ofTexts []⟩ (nodeWithItem, ([], [])) = (.ok (), (labelled, t)) ∧
        4300000005 ∈ unsignedLeavesOfEntries labelled ∧ IsNamed sampleNames 4300000005 := by
  have hkeys : (Value.dictionary nodeWithItem).HasDistinctKeys := ⟨by decide, ⟨trivial, trivial⟩, trivial⟩
  exact ⟨_, _, label_fixed _ _ hkeys (agrees_nil sampleNames), by decide, by decide, rfl⟩

end Labelling

end SwiftLens
