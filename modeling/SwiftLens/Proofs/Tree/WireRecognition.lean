import SwiftLens.Proofs.Tree.Paths
import SwiftLens.Proofs.Tree.WireGrammar

/-!
# Reading recognises the wire form

`Wire.decode_recognises_wire_form`: reading succeeds on exactly the wire forms; what it returns has
integers of 64 bits and no key twice; and what it refuses, it refuses with the location of the first
node, in reading order, that is not sound.

`Judges` ties a result to a list of nodes: either all of them are sound, or the result names the
location of the first that is not. It is shown of each reader in turn. The readers of scalars are
judged against the texts of the grammar, the readers of items and entries go along their lists, and
`isJudged` puts them together by one induction along the wire form.
-/

namespace SwiftLens

namespace Wire

/-- The location is that of the first node that is not sound. -/
def IsFirstUnsound (nodes : List Node) (location : Location) : Prop :=
  ∃ before node after, nodes = before ++ node :: after ∧ (∀ n ∈ before, n.IsSound) ∧
    ¬node.IsSound ∧ node.location = location

/-! ### Judging a result by nodes -/

section Judges

variable {α β : Type} {P : α → Prop} {Q : β → Prop} {ns ms : List Node}
  {r : Except (Located Defect) α}

/-- A result fits the nodes that were read for it: either they are all sound and the value is as `P`
says, or the location of the defect is that of the first node that is not sound. -/
def Judges (ns : List Node) (P : α → Prop) : Except (Located Defect) α → Prop
  | .ok v => (∀ n ∈ ns, n.IsSound) ∧ P v
  | .error e => IsFirstUnsound ns e.location

/-- The first node that is not in order is the first of any more nodes. -/
theorem IsFirstUnsound.append {location : Location} (h : IsFirstUnsound ns location) :
    IsFirstUnsound (ns ++ ms) location := by
  obtain ⟨before, node, after, rfl, hbefore, hnode, hlocation⟩ := h
  exact ⟨before, node, after ++ ms, by simp, hbefore, hnode, hlocation⟩

/-- The first node that is not in order comes after nodes that are. -/
theorem IsFirstUnsound.after (hns : ∀ n ∈ ns, n.IsSound) {location : Location}
    (h : IsFirstUnsound ms location) : IsFirstUnsound (ns ++ ms) location := by
  obtain ⟨before, node, after, rfl, hbefore, hnode, hlocation⟩ := h
  refine ⟨ns ++ before, node, after, by simp, ?_, hnode, hlocation⟩
  intro n hn
  rcases List.mem_append.mp hn with hn | hn
  · exact hns n hn
  · exact hbefore n hn

/-- Sound nodes that are read first leave the judgement to the rest. -/
theorem Judges.after (hns : ∀ n ∈ ns, n.IsSound) (h : Judges ms P r) : Judges (ns ++ ms) P r := by
  cases r with
  | ok v =>
    refine ⟨?_, h.2⟩
    intro n hn
    rcases List.mem_append.mp hn with hn | hn
    · exact hns n hn
    · exact h.1 n hn
  | error e => exact IsFirstUnsound.after hns h

/-- A sound node before its parts leaves the judgement to the parts. -/
theorem Judges.cons {node : Node} (hnode : node.IsSound) (h : Judges ns P r) :
    Judges (node :: ns) P r := by
  have hself : ∀ n ∈ [node], n.IsSound := by simpa using hnode
  exact Judges.after hself h

/-- What is made of a value does not change the judgement. -/
theorem Judges.map {f : α → β} (h : Judges ns P r) (hf : ∀ v, P v → Q (f v)) :
    Judges ns Q (r.map f) := by
  cases r with
  | ok v => exact ⟨h.1, hf v h.2⟩
  | error e => exact h

/-- A judgement on a part is one on the whole, with the step to the part in front. -/
theorem Judges.within (step : Step) (h : Judges ns P r) :
    Judges (within step ns) P (Located.under step r) := by
  cases r with
  | ok v => exact ⟨forall_within_isSound.mpr h.1, h.2⟩
  | error e =>
    obtain ⟨before, node, after, rfl, hbefore, hnode, hlocation⟩ := h
    refine ⟨Wire.within step before, { node with location := step :: node.location },
      Wire.within step after, by simp [Wire.within], forall_within_isSound.mpr hbefore, hnode, ?_⟩
    exact congrArg (step :: ·) hlocation

/-- A node that is not sound is reported where it stands, whatever comes after it. -/
theorem judges_here {role : Role} {raw : Json Double} (h : ¬(⟨[], role, raw⟩ : Node).IsSound)
    (defect : Defect) : Judges (⟨[], role, raw⟩ :: ns) P (Located.here defect) :=
  ⟨[], ⟨[], role, raw⟩, ns, rfl, by simp, h, rfl⟩

end Judges

/-! ### Under a tag -/

end Wire

namespace Text

/-- A text is read as a natural number when it is digits. -/
theorem toNat?_eq_some_iff {t : Text} {n : Nat} :
    t.toNat? = some n ↔ t.isDigits = true ∧ n = t.digitsValue := by
  unfold toNat?
  split_ifs with h
  · simp [h, eq_comm]
  · simp [h]

/-- What begins with a minus sign is not digits. -/
theorem not_isDigits_minus (digits : Text) : ¬isDigits (CodeUnit.minus :: digits) = true := by
  have hminus : CodeUnit.isDigit CodeUnit.minus = false := by decide
  simp [isDigits, hminus]

/-- A text is read as an integer when it is its decimal form. -/
theorem toInt?_eq_some_iff {t : Text} {n : Int} : t.toInt? = some n ↔ t.IsDecimal n := by
  by_cases hminus : t.head? = some CodeUnit.minus
  · obtain ⟨digits, rfl⟩ : ∃ digits, t = CodeUnit.minus :: digits := by
      cases t with
      | nil => simp at hminus
      | cons c digits => exact ⟨digits, by simpa using hminus⟩
    rw [toInt?_minus, Option.map_eq_some_iff]
    constructor
    · rintro ⟨m, hm, rfl⟩
      obtain ⟨hdigits, rfl⟩ := toNat?_eq_some_iff.mp hm
      exact .inr ⟨digits, rfl, hdigits, rfl⟩
    · rintro (⟨hdigits, -⟩ | ⟨digits', hcons, hdigits, rfl⟩)
      · exact absurd hdigits (not_isDigits_minus digits)
      · obtain rfl := List.tail_eq_of_cons_eq hcons
        exact ⟨_, toNat?_eq_some_iff.mpr ⟨hdigits, rfl⟩, rfl⟩
  · rw [toInt?_of_head?_ne_minus hminus, Option.map_eq_some_iff]
    constructor
    · rintro ⟨m, hm, rfl⟩
      obtain ⟨hdigits, rfl⟩ := toNat?_eq_some_iff.mp hm
      exact .inl ⟨hdigits, rfl⟩
    · rintro (⟨hdigits, rfl⟩ | ⟨digits, rfl, -, -⟩)
      · exact ⟨_, toNat?_eq_some_iff.mpr ⟨hdigits, rfl⟩, rfl⟩
      · exact absurd rfl hminus

end Text

namespace Base64

/-- The letters of the alphabet are the units that stand for a number. -/
theorem isSome_sextet?_iff (c : CodeUnit) : (sextet? c).isSome = true ↔ IsLetter c := by
  unfold sextet? IsLetter CodeUnit.isDigit
  simp only [Bool.and_eq_true, decide_eq_true_eq]
  split_ifs <;> simp_all

/-- The texts that are accepted are letters followed by at most two `=`. -/
theorem isAccepted_iff (t : Text) : isAccepted t = true ↔ IsText t := by
  constructor
  · intro h
    simp only [isAccepted, Bool.and_eq_true, decide_eq_true_eq, List.all_eq_true, beq_iff_eq] at h
    refine ⟨letters t, (padding t).length, ?_, ?_, h.1⟩
    · rw [← List.eq_replicate_of_mem h.2]
      exact (List.takeWhile_append_dropWhile ..).symm
    · intro c hc
      have hsome : (sextet? c).isSome = true :=
        List.mem_takeWhile_imp (p := fun c => (sextet? c).isSome) hc
      exact (isSome_sextet?_iff c).mp hsome
  · rintro ⟨front, pads, rfl, hfront, hpads⟩
    have hsome : ∀ c ∈ front, (sextet? c).isSome = true := fun c hc =>
      (isSome_sextet?_iff c).mpr (hfront c hc)
    have hdrop : padding (front ++ List.replicate pads CodeUnit.equals)
        = List.replicate pads CodeUnit.equals := by
      rw [padding, List.dropWhile_append_of_pos hsome, List.dropWhile_replicate, sextet?_equals]
      simp
    rw [isAccepted, hdrop]
    simpa using hpads

end Base64

namespace Wire

/-- A text is read as an integer without a sign when it is digits. -/
theorem unsigned?_eq_some_iff {t : Text} {n : Int} :
    unsigned? t = some n ↔ t.isDigits = true ∧ n = t.digitsValue := by
  have hmap : unsigned? t = t.toNat?.map Int.ofNat := by
    unfold unsigned?
    cases t.toNat? <;> rfl
  rw [hmap, Option.map_eq_some_iff]
  constructor
  · rintro ⟨m, hm, rfl⟩
    obtain ⟨ht, rfl⟩ := Text.toNat?_eq_some_iff.mp hm
    exact ⟨ht, rfl⟩
  · rintro ⟨ht, rfl⟩
    exact ⟨_, Text.toNat?_eq_some_iff.mpr ⟨ht, rfl⟩, rfl⟩

/-- A reader of integers judges the node under its tag, once it takes texts apart as the grammar
says. -/
theorem judges_decodeInteger {tag : Text} {read : Text → Option Int} {range : Int × Int}
    (htag : tag ≠ "dictionary")
    (htext : ∀ t, IsScalar tag (.string t) ↔ ∃ n, read t = some n ∧ range.1 ≤ n ∧ n ≤ range.2)
    (hstring : ∀ raw, IsScalar tag raw → ∃ t, raw = .string t) (raw : Json Double) :
    Judges [⟨[], .payload tag, raw⟩] (fun n => range.1 ≤ n ∧ n ≤ range.2)
      (decodeInteger tag read range raw) := by
  by_cases hraw : ∃ t, raw = .string t
  · obtain ⟨t, rfl⟩ := hraw
    simp only [decodeInteger]
    split
    · next hread =>
      refine judges_here ?_ _
      rw [isSound_payload_iff htag, htext]
      rintro ⟨n, hn, -⟩
      exact absurd (hread.symm.trans hn) (by simp)
    · next n hread =>
      split
      · next hout =>
        refine judges_here ?_ _
        rw [isSound_payload_iff htag, htext]
        rintro ⟨m, hm, hlow, hhigh⟩
        obtain rfl : n = m := Option.some.inj (hread.symm.trans hm)
        omega
      · next hin =>
        have hrange : range.1 ≤ n ∧ n ≤ range.2 := by omega
        refine ⟨?_, hrange⟩
        simp only [List.forall_mem_cons, List.not_mem_nil, false_implies, implies_true, and_true]
        rw [isSound_payload_iff htag, htext]
        exact ⟨n, hread, hrange⟩
  · have hbad : ¬(⟨[], .payload tag, raw⟩ : Node).IsSound := by
      rw [isSound_payload_iff htag]
      exact fun h => hraw (hstring raw h)
    cases raw with
    | string t => exact absurd ⟨t, rfl⟩ hraw
    | _ => exact judges_here hbad _

/-- The reader of signed integers judges what stands under their tag. -/
theorem judges_decode_int64 (raw : Json Double) :
    Judges [⟨[], .payload "int64", raw⟩] (fun n => signedRange.1 ≤ n ∧ n ≤ signedRange.2)
      (decodeInteger "int64" Text.toInt? signedRange raw) := by
  refine judges_decodeInteger (by decide) ?_ ?_ raw
  · intro t
    constructor
    · intro h
      cases h with
      | signed _ ht low high => exact ⟨_, Text.toInt?_eq_some_iff.mpr ht, low, high⟩
      | unsigned h => exact absurd h (by decide)
      | data h => exact absurd h (by decide)
    · rintro ⟨n, hn, low, high⟩
      exact .signed rfl (Text.toInt?_eq_some_iff.mp hn) low high
  · intro raw h
    cases h with
    | signed => exact ⟨_, rfl⟩
    | unsigned => exact ⟨_, rfl⟩
    | double h => exact absurd h (by decide)
    | data => exact ⟨_, rfl⟩

/-- The reader of unsigned integers judges what stands under their tag. -/
theorem judges_decode_uint64 (raw : Json Double) :
    Judges [⟨[], .payload "uint64", raw⟩] (fun n => unsignedRange.1 ≤ n ∧ n ≤ unsignedRange.2)
      (decodeInteger "uint64" unsigned? unsignedRange raw) := by
  refine judges_decodeInteger (by decide) ?_ ?_ raw
  · intro t
    constructor
    · intro h
      cases h with
      | signed h => exact absurd h (by decide)
      | unsigned _ ht high =>
        exact ⟨_, unsigned?_eq_some_iff.mpr ⟨ht, rfl⟩, Int.natCast_nonneg _, high⟩
      | data h => exact absurd h (by decide)
    · rintro ⟨n, hn, -, high⟩
      obtain ⟨ht, rfl⟩ := unsigned?_eq_some_iff.mp hn
      exact .unsigned rfl ht high
  · intro raw h
    cases h with
    | signed => exact ⟨_, rfl⟩
    | unsigned => exact ⟨_, rfl⟩
    | double h => exact absurd h (by decide)
    | data => exact ⟨_, rfl⟩

/-- The reader of doubles judges what stands under their tag. -/
theorem judges_decodeDouble (raw : Json Double) :
    Judges [⟨[], .payload "double", raw⟩] (fun _ => True) (decodeDouble raw) := by
  have hscalar : IsScalar "double" raw ↔ ∃ x, raw = .number x := by
    constructor
    · intro h
      cases h with
      | signed h => exact absurd h (by decide)
      | unsigned h => exact absurd h (by decide)
      | double _ x => exact ⟨x, rfl⟩
      | data h => exact absurd h (by decide)
    · rintro ⟨x, rfl⟩
      exact .double rfl x
  have hsound : (⟨[], .payload "double", raw⟩ : Node).IsSound ↔ IsScalar "double" raw :=
    isSound_payload_iff (by decide) [] raw
  cases raw with
  | number x => exact ⟨by simpa using hsound.mpr (hscalar.mpr ⟨x, rfl⟩), trivial⟩
  | _ => exact judges_here (by rw [hsound, hscalar]; simp) _

/-- The reader of byte strings judges what stands under their tag. -/
theorem judges_decodeData (raw : Json Double) :
    Judges [⟨[], .payload "data", raw⟩] (fun _ => True) (decodeData raw) := by
  have hscalar : IsScalar "data" raw ↔ ∃ t, raw = .string t ∧ Base64.IsText t := by
    constructor
    · intro h
      cases h with
      | signed h => exact absurd h (by decide)
      | unsigned h => exact absurd h (by decide)
      | double h => exact absurd h (by decide)
      | data _ ht => exact ⟨_, rfl, ht⟩
    · rintro ⟨t, rfl, ht⟩
      exact .data rfl ht
  have hsound : (⟨[], .payload "data", raw⟩ : Node).IsSound ↔ IsScalar "data" raw :=
    isSound_payload_iff (by decide) [] raw
  cases raw with
  | string t =>
    simp only [decodeData, Base64.decode?]
    by_cases ht : Base64.isAccepted t = true
    · have hscalar := hscalar.mpr ⟨t, rfl, (Base64.isAccepted_iff t).mp ht⟩
      simp only [ht, if_true]
      exact ⟨by simpa using hsound.mpr hscalar, trivial⟩
    · simp only [ht, Bool.false_eq_true, if_false]
      refine judges_here ?_ _
      rw [hsound, hscalar]
      rintro ⟨_, hraw, hword⟩
      cases hraw
      exact ht ((Base64.isAccepted_iff t).mpr hword)
  | _ => exact judges_here (by rw [hsound, hscalar]; simp) _

/-! ### Reading judges the nodes -/

/-- A key that is no tag is refused at the object that has it. -/
theorem decode_of_not_mem_tags {tag : Text} (h : tag ∉ tags) (raw : Json Double) :
    decode (.object [(tag, raw)]) = Located.here (.unknownTag tag) := by
  simp only [tags, List.mem_cons, List.not_mem_nil, or_false, not_or] at h
  obtain ⟨h₁, h₂, h₃, h₄, h₅⟩ := h
  rw [decode, if_neg h₁, if_neg h₂, if_neg h₃, if_neg h₄, if_neg h₅]

/-- What is no pair is refused where it stands, whatever comes after it. -/
theorem judges_entry_of_not_pair {raw : Json Double} (h : ∀ entry, raw ≠ pair entry)
    {rest : List (Json Double)} {index : Nat} {before : Entries Value} {keys : List Text}
    {P : Entries Value → Prop} :
    Judges (entryNodes index keys (raw :: rest)) P (decodePairs index before (raw :: rest)) := by
  have hne : ∀ key value, raw = .array [.string key, value] → False := fun key value hraw =>
    h (key, value) hraw
  have hbad : ¬(⟨[], .entry keys, raw⟩ : Node).IsSound := by
    rintro ⟨key, value, hraw, -⟩
    exact h (key, value) hraw
  rw [entryNodes, decodePairs]
  · have hjudge : Judges [⟨[], .entry keys, raw⟩] P (Located.here .notPair) := judges_here hbad _
    exact IsFirstUnsound.append (hjudge.within (.item index))
  all_goals
    intro key value hraw
    exact hne key value hraw

open Value

/-- Reading a value as a tree judges its nodes, and what it returns has integers of 64 bits and
distinct keys. -/
def IsJudged (raw : Json Double) : Prop :=
  Judges (nodes raw) (fun v => FitsIn64Bits v ∧ HasDistinctKeys v) (decode raw)

/-- Reading items judges their nodes one after the other. -/
theorem judges_decodeItems {items : List (Json Double)} (h : ∀ item ∈ items, IsJudged item)
    (index : Nat) :
    Judges (itemNodes index items) (fun vs => ItemsFitIn64Bits vs ∧ ItemsHaveDistinctKeys vs)
      (decodeItems index items) := by
  induction items generalizing index with
  | nil =>
    rw [itemNodes, decodeItems]
    exact ⟨by simp, trivial, trivial⟩
  | cons item rest ih =>
    have hitem := (h item List.mem_cons_self).within (.item index)
    have hrest := ih (fun i hi => h i (List.mem_cons_of_mem item hi)) (index + 1)
    rw [itemNodes, decodeItems]
    cases hread : Located.under (.item index) (decode item) with
    | error e =>
      rw [hread] at hitem
      exact IsFirstUnsound.append hitem
    | ok value =>
      rw [hread] at hitem
      obtain ⟨hsound, hfits, hkeys⟩ := hitem
      exact (hrest.map fun vs h => ⟨⟨hfits, h.1⟩, hkeys, h.2⟩).after hsound

/-- Entries as they are kept while a dictionary is read. -/
def AreKept (entries : Entries Value) : Prop :=
  EntriesFitIn64Bits entries ∧ (Entries.keys entries).Nodup ∧ EntriesHaveDistinctKeys entries

/-- One more entry, with a new key, is kept as the others are. -/
theorem AreKept.concat {before : Entries Value} {key : Text} {value : Value} (h : AreKept before)
    (hkey : key ∉ Entries.keys before) (hvalue : FitsIn64Bits value ∧ HasDistinctKeys value) :
    AreKept (before ++ [(key, value)]) := by
  obtain ⟨hfits, hkeys, hdistinct⟩ := h
  have happend : EntriesFitIn64Bits (before ++ [(key, value)]) ∧
      EntriesHaveDistinctKeys (before ++ [(key, value)]) := by
    clear hkeys hkey
    induction before with
    | nil => exact ⟨⟨hvalue.1, trivial⟩, hvalue.2, trivial⟩
    | cons entry rest ih =>
      obtain ⟨hrest, hrest'⟩ := ih hfits.2 hdistinct.2
      exact ⟨⟨hfits.1, hrest⟩, hdistinct.1, hrest'⟩
  refine ⟨happend.1, ?_, happend.2⟩
  rw [Entries.keys_append]
  exact List.nodup_append_comm.mp (List.nodup_cons.mpr ⟨hkey, hkeys⟩)

/-- Reading entries judges their nodes, after entries that are kept. -/
theorem judges_decodePairs {pairs : List (Json Double)}
    (h : ∀ entry, pair entry ∈ pairs → IsJudged entry.2) (index : Nat) {before : Entries Value}
    (hbefore : AreKept before) :
    Judges (entryNodes index (Entries.keys before) pairs) AreKept (decodePairs index before pairs) := by
  induction pairs generalizing index before with
  | nil =>
    rw [entryNodes, decodePairs]
    exact ⟨by simp, hbefore⟩
  | cons raw rest ih =>
    by_cases hpair : ∃ entry, raw = pair entry
    · obtain ⟨⟨key, value⟩, rfl⟩ := hpair
      have hvalue := (h (key, value) List.mem_cons_self).within (.item 1)
      rw [pair, entryNodes, decodePairs]
      by_cases hhas : before.has key = true
      · -- A repeated key is a fault of the pair, before anything in its value.
        have hbad : ¬(⟨[], .entry (Entries.keys before), pair (key, value)⟩ : Node).IsSound := by
          rintro ⟨_, _, hraw, hnew⟩
          cases hraw
          exact hnew ((Entries.has_iff_mem_keys before key).mp hhas)
        have hjudge : Judges (⟨[], .entry (Entries.keys before), pair (key, value)⟩ ::
            within (.item 1) (nodes value)) AreKept (Located.here (.duplicateKey key)) :=
          judges_here hbad _
        rw [if_pos hhas]
        exact IsFirstUnsound.append (hjudge.within (.item index))
      · have hnew : key ∉ Entries.keys before := fun hmem =>
          hhas ((Entries.has_iff_mem_keys before key).mpr hmem)
        have hgood : (⟨[], .entry (Entries.keys before), pair (key, value)⟩ : Node).IsSound :=
          ⟨key, value, rfl, hnew⟩
        have hjudge := (Judges.cons hgood hvalue).within (.item index)
        rw [if_neg hhas]
        cases hread : Located.under (.item index) (Located.under (.item 1) (decode value)) with
        | error e =>
          rw [hread] at hjudge
          exact IsFirstUnsound.append hjudge
        | ok v =>
          rw [hread] at hjudge
          have hrest := ih (fun entry hentry => h entry (List.mem_cons_of_mem _ hentry)) (index + 1)
            (hbefore.concat hnew hjudge.2)
          rw [Entries.keys_append] at hrest
          exact hrest.after hjudge.1
    · exact judges_entry_of_not_pair fun entry hraw => hpair ⟨entry, hraw⟩

/-- Reading a dictionary judges what stands under its tag. -/
theorem judges_decodeDictionary {raw : Json Double}
    (h : ∀ pairs, raw = .array pairs → ∀ entry, pair entry ∈ pairs → IsJudged entry.2) :
    Judges (payloadNodes "dictionary" raw) (fun v => FitsIn64Bits v ∧ HasDistinctKeys v)
      (decodeDictionary raw) := by
  by_cases harray : ∃ pairs, raw = .array pairs
  · obtain ⟨pairs, rfl⟩ := harray
    have hnone : AreKept [] := ⟨trivial, List.nodup_nil, trivial⟩
    have hpairs := judges_decodePairs (h pairs rfl) 0 hnone
    rw [payloadNodes, if_pos rfl, decodeDictionary]
    exact Judges.cons (.inr ⟨rfl, pairs, rfl⟩) (hpairs.map fun _ h => h)
  · have hbad : ¬(⟨[], .payload "dictionary", raw⟩ : Node).IsSound := by
      rintro (hscalar | ⟨-, hpairs⟩)
      · exact not_isScalar_dictionary hscalar
      · exact harray hpairs
    cases raw with
    | array pairs => exact absurd ⟨pairs, rfl⟩ harray
    | _ => exact judges_here hbad _

/-- Reading an object with one key judges the object and what stands under the key. -/
theorem judges_decode_tagged {tag : Text} {raw : Json Double}
    (h : tag = "dictionary" → ∀ pairs, raw = .array pairs → ∀ entry, pair entry ∈ pairs →
      IsJudged entry.2) : IsJudged (tagged tag raw) := by
  by_cases htag : tag ∈ tags
  · unfold IsJudged
    rw [nodes_tagged htag]
    refine Judges.cons (isSound_tagged htag raw) ?_
    simp only [tags, List.mem_cons, List.not_mem_nil, or_false] at htag
    rcases htag with rfl | rfl | rfl | rfl | rfl
    · rw [payloadNodes_of_ne (by decide), decode_tagged_int64]
      exact ((judges_decode_int64 raw).map fun n hn => ⟨hn, trivial⟩).within _
    · rw [payloadNodes_of_ne (by decide), decode_tagged_uint64]
      exact ((judges_decode_uint64 raw).map fun n hn => ⟨hn, trivial⟩).within _
    · rw [payloadNodes_of_ne (by decide), decode_tagged_double]
      exact ((judges_decodeDouble raw).map fun _ _ => ⟨trivial, trivial⟩).within _
    · rw [payloadNodes_of_ne (by decide), decode_tagged_data]
      exact ((judges_decodeData raw).map fun _ _ => ⟨trivial, trivial⟩).within _
    · rw [decode_tagged_dictionary]
      exact (judges_decodeDictionary (h rfl)).within _
  · unfold IsJudged
    rw [tagged, nodes, if_neg htag, decode_of_not_mem_tags htag]
    refine judges_here ?_ _
    rintro ⟨_, _, hmembers, hmem⟩
    cases hmembers
    exact htag hmem

/-- Reading judges the nodes of every value. -/
theorem isJudged (raw : Json Double) : IsJudged raw := by
  induction raw using wire_induction with
  | h raw hitems hentries =>
    cases raw with
    | null => exact ⟨by simp [nodes, Node.IsSound], trivial, trivial⟩
    | bool b => exact ⟨by simp [nodes, Node.IsSound], trivial, trivial⟩
    | string t => exact ⟨by simp [nodes, Node.IsSound], trivial, trivial⟩
    | number x => exact judges_here id _
    | array items =>
      unfold IsJudged
      rw [nodes, decode]
      exact Judges.cons trivial ((judges_decodeItems (hitems items rfl) 0).map fun _ h => h)
    | object members =>
      rcases members with _ | ⟨⟨tag, raw⟩, _ | ⟨second, rest⟩⟩
      · exact judges_here (by rintro ⟨_, _, hmembers, -⟩; cases hmembers) _
      · refine judges_decode_tagged ?_
        rintro rfl pairs rfl
        exact hentries pairs rfl
      · exact judges_here (by rintro ⟨_, _, hmembers, -⟩; cases hmembers) _

/-- What is read has integers of 64 bits and distinct keys. -/
theorem kept_of_decode {raw : Json Double} {v : Value} (h : decode raw = .ok v) :
    FitsIn64Bits v ∧ HasDistinctKeys v := by
  have hjudged := isJudged raw
  rw [IsJudged, h] at hjudged
  exact hjudged.2

/-! ### Reading recognises the grammar -/

/-- Whatever the value and the base path, reading succeeds on exactly the wire forms. Otherwise it
fails with a protocol fault whose path is the base path followed by the way to the first node, in
reading order, that is not sound: `.` and a tag for a step to what stands under the tag, and the number
of an item between brackets for a step to the item. What it returns has integers of 64 bits and no key
twice. -/
theorem decode_recognises_wire_form (raw : Json Double) (base : Text) :
    ((∃ v, (decode raw).mapError (Fault.wire base) = .ok v) ↔ IsWireForm raw) ∧
      (¬IsWireForm raw → ∃ fault before node after way,
        (decode raw).mapError (Fault.wire base) = .error fault ∧
          fault.code?.map Code.text = some (Text.ofString "bridge_protocol_error") ∧
            fault.details? = some [(("path" : Text), Json.string (base ++ way))] ∧
              Location.Spells node.location way ∧
                nodes raw = before ++ node :: after ∧ (∀ n ∈ before, n.IsSound) ∧ ¬node.IsSound ∧
                  raw.at? node.location = some node.raw) ∧
        ∀ v, (decode raw).mapError (Fault.wire base) = .ok v → v.FitsIn64Bits ∧ v.HasDistinctKeys := by
  have hjudged : Judges (nodes raw) (fun v => FitsIn64Bits v ∧ HasDistinctKeys v) (decode raw) :=
    isJudged raw
  rw [← forall_isSound_iff]
  cases hdecode : decode raw with
  | ok v =>
    rw [hdecode] at hjudged
    obtain ⟨hsound, hvalue⟩ := hjudged
    refine ⟨⟨fun _ => hsound, fun _ => ⟨v, rfl⟩⟩, fun hnot => absurd hsound hnot, ?_⟩
    intro w hw
    cases hw
    exact hvalue
  | error e =>
    rw [hdecode] at hjudged
    obtain ⟨before, node, after, hnodes, hbefore, hnode, hlocation⟩ := hjudged
    have hmem : node ∈ nodes raw := by simp [hnodes]
    refine ⟨⟨?_, ?_⟩, fun _ => ?_, ?_⟩
    · rintro ⟨v, hv⟩
      cases hv
    · intro hsound
      exact absurd (hsound node hmem) hnode
    · refine ⟨.wire base e, before, node, after, Location.text node.location, rfl, rfl, ?_,
        Location.spells_text node.location, hnodes, hbefore, hnode, at?_of_mem_nodes raw node hmem⟩
      rw [hlocation]
      rfl
    · intro v hv
      cases hv

/-- A dictionary whose second value is an array with an integer in words, after one in digits. -/
def integerInWords : Json Double :=
  tagged "dictionary" (.array
    [pair ("key.kind", .null),
      pair ("key.list", .array [tagged "int64" (.string "7"), tagged "uint64" (.string "seven")])])

/-- The path of the integer in words goes down through the dictionary, its second pair, the value of the
pair and the second item. -/
theorem decode_refuses_integer_in_words :
    ∃ fault, (decode integerInWords).mapError (Fault.wire "$.response") = .error fault ∧
      fault.code?.map Code.text = some (Text.ofString "bridge_protocol_error") ∧
        fault.details? =
          some [(("path" : Text), Json.string "$.response.dictionary[1][1][1].uint64")] := by
  obtain ⟨hreads, hrefuses, -⟩ := decode_recognises_wire_form integerInWords "$.response"
  have hnot : ¬IsWireForm integerInWords := by
    intro hform
    obtain ⟨v, hv⟩ := hreads.mpr hform
    cases hv
  obtain ⟨fault, -, -, -, -, hfault, hcode, -⟩ := hrefuses hnot
  refine ⟨fault, hfault, hcode, ?_⟩
  obtain rfl := Except.error.inj hfault
  rfl

end Wire

end SwiftLens
