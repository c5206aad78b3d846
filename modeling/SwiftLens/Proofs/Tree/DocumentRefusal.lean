import SwiftLens.Fault
import SwiftLens.Proofs.Tree.Parts
import SwiftLens.Proofs.Tree.Paths

/-!
# What a document cannot hold

A tree is refused just in case one of its leaves is a byte string or a number that is not finite, and what is
reported is the first such leaf in document order: `Document.first_refused_leaf`.

`Value.leaves` lists the leaves with their locations, and each location leads to its leaf
(`Value.at?_of_mem_leaves`). Everything else is one equation: the defect that printing finds is the first
that is found in the list (`found?_render`).
-/

namespace SwiftLens

/-! ### Leaves -/

namespace Value

/-- The part of a tree that a step leads to. -/
def part? : Step → Value → Option Value
  | .field name, dictionary entries => Entries.get? name entries
  | .item index, array items => items[index]?
  | _, _ => none

/-- The node of a tree that a location leads to. -/
def at? : Location → Value → Option Value
  | [], v => some v
  | step :: rest, v => (part? step v).bind (at? rest)

/-- A leaf of a tree and where it is. -/
structure Leaf where
  location : Location
  value : Value

/-- A leaf of a part, as seen from the whole. -/
def Leaf.under (step : Step) (leaf : Leaf) : Leaf := ⟨step :: leaf.location, leaf.value⟩

mutual

/-- The leaves of a tree in document order. -/
def leaves : Value → List Leaf
  | array items => itemLeaves 0 items
  | dictionary entries => entryLeaves entries
  | v => [⟨[], v⟩]

/-- The leaves of items, the first of which has the given number. -/
def itemLeaves (index : Nat) : List Value → List Leaf
  | [] => []
  | item :: rest => (leaves item).map (Leaf.under (.item index)) ++ itemLeaves (index + 1) rest

/-- The leaves of entries. -/
def entryLeaves : List (Text × Value) → List Leaf
  | [] => []
  | (key, value) :: rest => (leaves value).map (Leaf.under (.field key)) ++ entryLeaves rest

end

/-- The leaves of a part are found by way of the part. -/
theorem at?_under {v part : Value} {step : Step} (h : part? step v = some part) {leaf : Leaf}
    (hleaf : part.at? leaf.location = some leaf.value) :
    v.at? (leaf.under step).location = some (leaf.under step).value := by
  rw [Leaf.under, at?, h, Option.bind_some, hleaf]

mutual

/-- The location of a leaf leads to it, if no key stands twice. -/
theorem at?_of_mem_leaves : (v : Value) → v.HasDistinctKeys → ∀ leaf ∈ v.leaves,
    v.at? leaf.location = some leaf.value
  | .null, _, _, h | .bool _, _, _, h | .int64 _, _, _, h | .uint64 _, _, _, h | .double _, _, _, h
  | .string _, _, _, h | .data _, _, _, h => by rw [List.mem_singleton.mp h, at?]
  | .array items, hkeys, leaf, h => at?_of_mem_itemLeaves items hkeys [] leaf h
  | .dictionary entries, hkeys, leaf, h =>
      at?_of_mem_entryLeaves entries hkeys.2 [] hkeys.1 leaf h

/-- A leaf of items is found at its location. -/
theorem at?_of_mem_itemLeaves : (items : List Value) → ItemsHaveDistinctKeys items →
    ∀ before : List Value, ∀ leaf ∈ itemLeaves before.length items,
      (array (before ++ items)).at? leaf.location = some leaf.value
  | [], _, _, _, h => absurd h List.not_mem_nil
  | item :: rest, hkeys, before, leaf, h => by
      rw [itemLeaves, List.mem_append] at h
      rcases h with h | h
      · obtain ⟨inner, hinner, rfl⟩ := List.mem_map.mp h
        have hpart : part? (.item before.length) (array (before ++ item :: rest)) = some item := by
          simp [part?]
        exact at?_under hpart (at?_of_mem_leaves item hkeys.1 inner hinner)
      · have hlength : before.length + 1 = (before ++ [item]).length := by simp
        rw [hlength] at h
        rw [List.append_cons]
        exact at?_of_mem_itemLeaves rest hkeys.2 (before ++ [item]) leaf h

/-- A leaf of entries is found at its location. -/
theorem at?_of_mem_entryLeaves : (entries : List (Text × Value)) → EntriesHaveDistinctKeys entries →
    ∀ before : Entries Value, (Entries.keys (before ++ entries)).Nodup → ∀ leaf ∈ entryLeaves entries,
      (dictionary (before ++ entries)).at? leaf.location = some leaf.value
  | [], _, _, _, _, h => absurd h List.not_mem_nil
  | (key, value) :: rest, hkeys, before, hnodup, leaf, h => by
      rw [entryLeaves, List.mem_append] at h
      rcases h with h | h
      · obtain ⟨inner, hinner, rfl⟩ := List.mem_map.mp h
        have hnew : key ∉ Entries.keys before := by
          intro hmem
          rw [Entries.keys_append] at hnodup
          exact List.disjoint_of_nodup_append hnodup hmem List.mem_cons_self
        have hpart : part? (.field key) (dictionary (before ++ (key, value) :: rest)) = some value :=
          Entries.get?_append_cons hnew value rest
        exact at?_under hpart (at?_of_mem_leaves value hkeys.1 inner hinner)
      · rw [List.append_cons] at hnodup ⊢
        exact at?_of_mem_entryLeaves rest hkeys.2 (before ++ [(key, value)]) hnodup leaf h

end

end Value

/-! ### Defects -/

namespace Located

variable {δ α β : Type}

/-- The defect that a result reports. -/
def found? : Except (Located δ) α → Option (Located δ)
  | .ok _ => none
  | .error e => some e

/-- A result reports the same defect whatever is made of its value. -/
@[simp] theorem found?_map (f : α → β) (r : Except (Located δ) α) : found? (r.map f) = found? r := by
  cases r <;> rfl

/-- What is found in a part is found in the whole, one step further away. -/
theorem found?_under (step : Step) (r : Except (Located δ) α) :
    found? (under step r) = (found? r).map fun e => ⟨step :: e.location, e.defect⟩ := by
  cases r <;> rfl

end Located

namespace Document

open Value (Leaf leaves itemLeaves entryLeaves)
open Located (found? found?_map found?_under)

/-- A value that JSON cannot hold: a byte string, or a number that is not finite. -/
def IsRefused (v : Value) : Prop :=
  (∃ bytes, v = .data bytes) ∨ ∃ x : Double, v = .double x ∧ x.isFinite = false

/-- The defect of a leaf, if it has one. -/
def refusal? (leaf : Leaf) : Option (Located Defect) :=
  match leaf.value with
  | .data bytes => some ⟨leaf.location, .binary bytes.length⟩
  | .double x => if x.isFinite then none else some ⟨leaf.location, .notFinite x⟩
  | _ => none

/-- The defect of a leaf of a part, as seen from the whole. -/
theorem refusal?_under (step : Step) (leaf : Leaf) :
    refusal? (leaf.under step) = (refusal? leaf).map fun e => ⟨step :: e.location, e.defect⟩ := by
  obtain ⟨location, v⟩ := leaf
  cases v with
  | double x => cases hx : x.isFinite <;> simp [Leaf.under, refusal?, hx]
  | _ => rfl

/-- The first defect of a part is that of its leaves as seen from the whole. -/
theorem findSome?_under (step : Step) (ls : List Leaf) :
    (ls.map (Leaf.under step)).findSome? refusal? =
      (ls.findSome? refusal?).map fun e => ⟨step :: e.location, e.defect⟩ := by
  induction ls with
  | nil => rfl
  | cons leaf rest ih =>
    rw [List.map_cons, List.findSome?_cons, List.findSome?_cons, refusal?_under, ih]
    cases refusal? leaf <;> rfl

/-- A leaf has a defect just in case it is refused. -/
theorem refusal?_eq_none_iff {leaf : Leaf} : refusal? leaf = none ↔ ¬IsRefused leaf.value := by
  obtain ⟨location, v⟩ := leaf
  cases v with
  | double x => cases hx : x.isFinite <;> simp [refusal?, IsRefused, hx]
  | _ => simp [refusal?, IsRefused]

/-! ### What printing finds -/

mutual

/-- Printing finds the first defect among the leaves. -/
theorem found?_render : (v : Value) → ∀ level, found? (render level v) = v.leaves.findSome? refusal?
  | .null, _ | .bool true, _ | .bool false, _ | .int64 _, _ | .uint64 _, _ | .string _, _
  | .data _, _ => rfl
  | .double x, level => by
      cases hx : x.isFinite <;> simp [render, leaves, refusal?, hx, found?, Located.here]
  | .array items, level => by
      rw [render, found?_map, leaves]
      exact found?_renderItems items (level + 1) 0
  | .dictionary entries, level => by
      rw [render, found?_map, leaves]
      exact found?_renderEntries entries (level + 1)

/-- Printing items reports the defect of their first leaf that has one. -/
theorem found?_renderItems : (items : List Value) → ∀ level index,
    found? (renderItems level index items) = (itemLeaves index items).findSome? refusal?
  | [], _, _ => rfl
  | item :: rest, level, index => by
      have hitem := found?_under (.item index) (render level item)
      rw [found?_render item level] at hitem
      rw [itemLeaves, List.findSome?_append, findSome?_under, ← hitem, renderItems]
      cases Located.under (.item index) (render level item) with
      | error e => rfl
      | ok line => exact (found?_map _ _).trans (found?_renderItems rest level (index + 1))

/-- Printing entries reports the defect of their first leaf that has one. -/
theorem found?_renderEntries : (entries : List (Text × Value)) → ∀ level,
    found? (renderEntries level entries) = (entryLeaves entries).findSome? refusal?
  | [], _ => rfl
  | (key, value) :: rest, level => by
      have hvalue := found?_under (.field key) (render level value)
      rw [found?_render value level] at hvalue
      rw [entryLeaves, List.findSome?_append, findSome?_under, ← hvalue, renderEntries]
      cases Located.under (.field key) (render level value) with
      | error e => rfl
      | ok line => exact (found?_map _ _).trans (found?_renderEntries rest level)

end

/-- The words for a number that is not finite. -/
def notFiniteText (x : Double) : Text :=
  if x.isNaN then "NaN" else if x.isNegative then "-Infinity" else "Infinity"

/-- A number that is not finite is printed in its words. -/
theorem text_of_not_isFinite {x : Double} (h : x.isFinite = false) : x.text = notFiniteText x := by
  have hzero : x.isZero = false := by
    have hbiased : x.biased = 2047 := by simpa [Double.isFinite] using h
    simp [Double.isZero, hbiased]
  cases hsign : x.isNegative with
  | false =>
    simp only [Double.text, NumberFormat.text, notFiniteText, h, hsign]
    rfl
  | true =>
    simp only [Double.text, NumberFormat.text, notFiniteText, h, hzero, hsign]
    rfl

/-- What is reported of a refused leaf at a path: the path, and with it the number of its bytes or the words
for its number. -/
def citation (path : Text) : Value → Entries (Json Double)
  | .data bytes => [("path", .string path), ("byteLength", Json.ofNat bytes.length)]
  | .double x => [("path", .string path), ("value", .string (notFiniteText x))]
  | _ => [("path", .string path)]

/-- A defect of a leaf is reported at the printed path of the leaf. -/
theorem details_of_refusal {leaf : Leaf} {e : Located Defect} (h : refusal? leaf = some e) :
    (Fault.document e).details? = some (citation ("$" ++ Location.text leaf.location) leaf.value) := by
  obtain ⟨location, v⟩ := leaf
  cases v with
  | data bytes =>
    obtain rfl := Option.some.inj h
    rfl
  | double x =>
    obtain ⟨hfinite, hsome⟩ := Option.ite_none_left_eq_some.mp h
    obtain rfl := Option.some.inj hsome
    have htext := text_of_not_isFinite (Bool.eq_false_iff.mpr hfinite)
    rw [citation, ← htext]
    rfl
  | _ => cases h

/-- A tree can be printed just in case no leaf of it is a byte string or a number that is not finite. A tree
that cannot is refused with a fault of serialization that names the first such leaf in document order: it
gives the path of the leaf, from `$` by `.` and a key for a step to what stands at the key and by a number
between brackets for a step to an item, and with it the number of the bytes or the words for the number; and
the path leads there. -/
theorem first_refused_leaf (v : Value) :
    ((∃ fault, (render 0 v).mapError Fault.document = .error fault) ↔
      ∃ leaf ∈ v.leaves, IsRefused leaf.value) ∧
    ∀ fault, (render 0 v).mapError Fault.document = .error fault →
      fault.code?.map Code.text = some (Text.ofString "serialization_contract_violation") ∧
      ∃ before leaf after way, v.leaves = before ++ leaf :: after ∧
        (∀ earlier ∈ before, ¬IsRefused earlier.value) ∧ IsRefused leaf.value ∧
        Location.Spells leaf.location way ∧ fault.details? = some (citation ("$" ++ way) leaf.value) ∧
        (v.HasDistinctKeys → v.at? leaf.location = some leaf.value) := by
  have hfound := found?_render v 0
  cases hrender : render 0 v with
  | ok text =>
    rw [hrender] at hfound
    have hnone : ∀ leaf ∈ v.leaves, ¬IsRefused leaf.value := fun leaf hleaf =>
      refusal?_eq_none_iff.mp (List.findSome?_eq_none_iff.mp hfound.symm leaf hleaf)
    refine ⟨⟨nofun, ?_⟩, nofun⟩
    rintro ⟨leaf, hleaf, hrefused⟩
    exact absurd hrefused (hnone leaf hleaf)
  | error e =>
    rw [hrender] at hfound
    obtain ⟨before, leaf, after, hleaves, hleaf, hbefore⟩ :=
      List.findSome?_eq_some_iff.mp hfound.symm
    have hmem : leaf ∈ v.leaves := by simp [hleaves]
    have hrefused : IsRefused leaf.value := by
      by_contra hnot
      rw [refusal?_eq_none_iff.mpr hnot] at hleaf
      cases hleaf
    refine ⟨⟨fun _ => ⟨leaf, hmem, hrefused⟩, fun _ => ⟨.document e, rfl⟩⟩, ?_⟩
    rintro _ ⟨⟩
    exact ⟨rfl, before, leaf, after, Location.text leaf.location, hleaves,
      fun l hl => refusal?_eq_none_iff.mp (hbefore l hl), hrefused, Location.spells_text leaf.location,
      details_of_refusal hleaf, fun hkeys => Value.at?_of_mem_leaves v hkeys leaf hmem⟩

/-- A dictionary with a number that is not finite inside an array, before a byte string. -/
def infiniteWeight : Value :=
  .dictionary
    [("key.kind", .string "source.lang.swift.decl.class"),
      ("key.substructure", .array [.null, .dictionary [("key.weight", .double (Double.infinity true))]]),
      ("key.syntaxmap", .data [1, 2])]

/-- The path of the number goes down through the key of the array, the second item and the key of the
number. -/
theorem render_refuses_infinite_weight :
    ∃ fault, (render 0 infiniteWeight).mapError Fault.document = .error fault ∧
      fault.code?.map Code.text = some (Text.ofString "serialization_contract_violation") ∧
      fault.details? =
        some [(("path" : Text), Json.string "$.key.substructure[1].key.weight"),
          (("value" : Text), Json.string "-Infinity")] := by
  obtain ⟨hrefused, hfault⟩ := first_refused_leaf infiniteWeight
  have hleaf : ∃ leaf ∈ infiniteWeight.leaves, IsRefused leaf.value := by
    refine ⟨⟨[.field "key.substructure", .item 1, .field "key.weight"], .double (Double.infinity true)⟩, ?_, ?_⟩
    · exact List.mem_cons_of_mem _ (List.mem_cons_of_mem _ List.mem_cons_self)
    · exact .inr ⟨_, rfl, by decide⟩
  obtain ⟨fault, hrender⟩ := hrefused.mpr hleaf
  obtain ⟨hcode, -⟩ := hfault fault hrender
  refine ⟨fault, hrender, hcode, ?_⟩
  obtain rfl := Except.error.inj hrender
  rfl

end Document

end SwiftLens
