import SwiftLens.Proofs.Tree.WireRecognition

/-!
# The canonical wire form

Reading is lenient in two places: the digits of an integer may follow zeros or be those of minus zero, and
a base64 text may lack padding or have bits to spare. Writing has one form for each tree.
`Wire.canonical_form_of_decode` says that reading and then writing gives that form, and that it changes
nothing but such texts.

Of the texts it is shown that the plain decimal ones (`Text.ofInt_eq_iff`) and the canonical base64 ones
(`Base64.encode_eq_iff`) are those that writing gives. `keepsCanonical` carries this through arrays and
dictionaries, along the same nodes by which the grammar tells where a value is not sound.
-/

namespace SwiftLens

/-! ### Decimal texts -/

namespace Text

open CodeUnit

/-- The digits of a decimal text: what follows its minus sign, if it has one. -/
def magnitude : Text → Text
  | minus :: digits => digits
  | digits => digits

/-- A decimal text is plain: it has no zero in front of other digits, and is not minus zero. -/
def IsPlain (t : Text) : Prop := (t.magnitude.head? = some zero → t.magnitude = [zero]) ∧ t ≠ "-0"

/-- Digits are at least one, and nothing else. -/
theorem isDigits_iff (t : Text) : t.isDigits = true ↔ t ≠ [] ∧ ∀ c ∈ t, c.isDigit = true := by
  simp [isDigits]

/-- Digits that do not begin with zero are those of the number they denote. -/
theorem ofNat_digitsValue {digits : Text} (h : digits.isDigits = true) (hzero : digits.head? ≠ some zero) :
    ofNat digits.digitsValue = digits := by
  rw [isDigits_iff] at h
  obtain ⟨hne, hdigits⟩ := h
  -- the induction is on the last digit, which is the one that writing splits off
  induction digits using List.reverseRecOn with
  | nil => exact absurd rfl hne
  | append_singleton front c ih =>
    obtain ⟨d, hd, rfl⟩ := exists_ofDigit (hdigits c (List.mem_append_right _ List.mem_cons_self))
    rw [digitsValue_append, digitsValue_ofDigit hd, List.length_singleton, pow_one, ofNat_eq]
    by_cases hfront : front = []
    · subst hfront
      have hvalue : digitsValue [] * 10 + d = d := by simp [digitsValue]
      rw [hvalue, if_pos hd, Nat.mod_eq_of_lt hd]
    · rw [List.head?_append_of_ne_nil _ hfront] at hzero
      have hwritten := ih hzero hfront fun c hc => hdigits c (List.mem_append_left _ hc)
      have hvalue : digitsValue front ≠ 0 := by
        intro hnone
        rw [hnone] at hwritten
        exact hzero (hwritten ▸ rfl)
      have htens : (digitsValue front * 10 + d) / 10 = digitsValue front := by omega
      have hlast : (digitsValue front * 10 + d) % 10 = d := by omega
      rw [if_neg (by omega), htens, hwritten, hlast]

/-- Digits are those of their value just when there is no zero in front of others. -/
theorem ofNat_digitsValue_eq_iff {digits : Text} (h : digits.isDigits = true) :
    ofNat digits.digitsValue = digits ↔ (digits.head? = some zero → digits = [zero]) := by
  constructor
  · intro hwritten hhead
    rw [← hwritten] at hhead
    have hvalue : digits.digitsValue = 0 := not_not.mp fun hne => head?_ofNat_ne_zero hne hhead
    rw [← hwritten, hvalue]
    rfl
  · intro hplain
    by_cases hhead : digits.head? = some zero
    · rw [hplain hhead]
      rfl
    · exact ofNat_digitsValue h hhead

/-- Digits have no minus sign to take away. -/
theorem magnitude_of_isDigits {t : Text} (h : t.isDigits = true) : t.magnitude = t := by
  unfold magnitude
  split
  · exact absurd h (not_isDigits_minus _)
  · rfl

/-- The decimal texts that writing gives are the plain ones. -/
theorem ofInt_eq_iff {t : Text} {n : Int} (h : t.IsDecimal n) : ofInt n = t ↔ t.IsPlain := by
  rcases h with ⟨hdigits, rfl⟩ | ⟨digits, rfl, hdigits, rfl⟩
  · have hsign : t ≠ "-0" := by
      rintro rfl
      exact not_isDigits_minus _ hdigits
    rw [ofInt, if_neg (by omega), Int.natAbs_natCast, ofNat_digitsValue_eq_iff hdigits, IsPlain,
      magnitude_of_isDigits hdigits, and_iff_left hsign]
  · have hplain : IsPlain (minus :: digits) ↔ ofNat digits.digitsValue = digits ∧ digits ≠ [zero] := by
      rw [ofNat_digitsValue_eq_iff hdigits]
      exact and_congr Iff.rfl (not_congr (by simp [show ("-0" : Text) = [minus, zero] from rfl]))
    rw [hplain, ofInt, Int.natAbs_neg, Int.natAbs_natCast]
    by_cases hvalue : digits.digitsValue = 0
    · rw [hvalue, if_neg (by omega)]
      refine iff_of_false (fun hwritten => head?_ofNat_ne_minus 0 (hwritten ▸ rfl)) ?_
      rintro ⟨hwritten, hne⟩
      exact hne hwritten.symm
    · have hne : digits ≠ [zero] := by
        rintro rfl
        exact hvalue rfl
      rw [if_pos (by omega), List.cons_inj_right, and_iff_left hne]

end Text

/-! ### Base64 texts -/

namespace Base64

/-- A base64 text is canonical: the padding fills the last group of four, and the bits of the last letter
that belong to no whole byte are zero. -/
def IsCanonical (t : Text) : Prop :=
  ∃ (ns : List Nat) (pads : Nat),
    t = ns.map letter ++ List.replicate pads CodeUnit.equals ∧ (∀ n ∈ ns, n < 64) ∧ pads ≤ 2 ∧
      (ns.length + pads) % 4 = 0 ∧ ∀ n ∈ ns.getLast?, n % 4 ^ pads = 0

/-- A number less than 256 is that of its byte. -/
theorem toNat_byte {n : Nat} (h : n < 256) : (UInt8.ofNat n).toNat = n := UInt8.toNat_ofNat_of_lt' h

/-- Numbers whose padding fills the last group, and which leave no bits over, are found again in the bytes
that they hold. -/
theorem sextets_pack {ns : List Nat} (h : ∀ n ∈ ns, n < 64) {p : Nat} (hp : p ≤ 2)
    (hlength : (ns.length + p) % 4 = 0) (hlast : ∀ n ∈ ns.getLast?, n % 4 ^ p = 0) :
    sextets (pack ns) = ns ∧ pads (pack ns) = p := by
  fun_induction pack ns with
  | case1 a b c d rest ih =>
    simp only [List.forall_mem_cons] at h
    obtain ⟨ha, hb, hc, hd, hrest⟩ := h
    simp only [List.length_cons] at hlength
    have hmore : ∀ n ∈ rest.getLast?, n % 4 ^ p = 0 := by
      intro n hn
      refine hlast n ?_
      simp [List.getLast?_cons, Option.mem_def.mp hn]
    obtain ⟨hsextets, hpads⟩ := ih hrest (by omega) hmore
    refine ⟨?_, hpads⟩
    simp only [List.cons_append, List.nil_append, sextets, hsextets, List.cons.injEq, and_true]
    rw [toNat_byte (by omega), toNat_byte (by omega), toNat_byte (by omega)]
    omega
  | case2 a b c =>
    simp only [List.forall_mem_cons] at h
    obtain ⟨ha, hb, hc, -⟩ := h
    obtain rfl : p = 1 := by simp only [List.length_cons, List.length_nil] at hlength; omega
    have hbits : c % 4 = 0 := hlast c rfl
    refine ⟨?_, rfl⟩
    simp only [sextets, List.cons.injEq, and_true]
    rw [toNat_byte (by omega), toNat_byte (by omega)]
    omega
  | case3 a b =>
    simp only [List.forall_mem_cons] at h
    obtain ⟨ha, hb, -⟩ := h
    obtain rfl : p = 2 := by simp only [List.length_cons, List.length_nil] at hlength; omega
    have hbits : b % 16 = 0 := hlast b rfl
    refine ⟨?_, rfl⟩
    simp only [sextets, List.cons.injEq, and_true]
    rw [toNat_byte (by omega)]
    omega
  | case4 ns hfour hthree htwo =>
    rcases ns with _ | ⟨a, _ | ⟨b, _ | ⟨c, _ | ⟨d, rest⟩⟩⟩⟩
    · obtain rfl : p = 0 := by simp only [List.length_nil] at hlength; omega
      exact ⟨rfl, rfl⟩
    · simp only [List.length_cons, List.length_nil] at hlength
      omega
    · exact absurd rfl (htwo a b)
    · exact absurd rfl (hthree a b c)
    · exact absurd rfl (hfour a b c d rest)

/-- Letters and padding fill groups of four. -/
theorem length_sextets (bytes : Utf8.Bytes) : ((sextets bytes).length + pads bytes) % 4 = 0 := by
  fun_induction sextets bytes with
  | case1 => rfl
  | case2 a => simp [pads]
  | case3 a b => simp [pads]
  | case4 a b c rest ih =>
    simp only [List.length_append, List.length_cons, List.length_nil, pads]
    omega

/-- The last number has no bits beyond the last byte. -/
theorem getLast?_sextets (bytes : Utf8.Bytes) : ∀ n ∈ (sextets bytes).getLast?, n % 4 ^ pads bytes = 0 := by
  fun_induction sextets bytes with
  | case1 => simp
  | case2 a =>
    rintro n ⟨⟩
    show a.toNat % 4 * 16 % 16 = 0
    omega
  | case3 a b =>
    rintro n ⟨⟩
    show b.toNat % 16 * 4 % 4 = 0
    omega
  | case4 a b c rest ih =>
    intro n hn
    rw [List.getLast?_append, Option.mem_def, Option.or_eq_some_iff] at hn
    rcases hn with hn | ⟨hnone, -⟩
    · exact ih n hn
    · -- no byte is left, so the padding is empty
      obtain rfl : rest = [] := by
        rw [← pack_sextets rest, List.getLast?_eq_none_iff.mp hnone]
        rfl
      exact Nat.mod_one n

/-- Bytes are written in canonical base64. -/
theorem isCanonical_encode (bytes : Utf8.Bytes) : IsCanonical (encode bytes) :=
  ⟨sextets bytes, pads bytes, encode_eq bytes, lt_of_mem_sextets bytes, pads_le bytes, length_sextets bytes,
    getLast?_sextets bytes⟩

/-- The base64 texts that writing gives are the canonical ones. -/
theorem encode_eq_iff {t : Text} {bytes : Utf8.Bytes} (h : decode? t = some bytes) :
    encode bytes = t ↔ IsCanonical t := by
  constructor
  · rintro rfl
    exact isCanonical_encode bytes
  · rintro ⟨ns, p, rfl, hns, hp, hlength, hlast⟩
    obtain ⟨hsextets, hpads⟩ := sextets_pack hns hp hlength hlast
    rw [decode?_letters hns hp] at h
    obtain rfl := Option.some.inj h
    rw [encode_eq, hsextets, hpads]

end Base64

namespace Wire

/-! ### Nodes in their canonical form -/

/-- A node is written in the canonical way: an integer in plain digits, bytes in canonical base64. -/
def Node.IsCanonical (node : Node) : Prop :=
  match node.role, node.raw with
  | .payload tag, .string t =>
    (tag = "int64" ∨ tag = "uint64" → t.IsPlain) ∧ (tag = "data" → Base64.IsCanonical t)
  | _, _ => True

/-- Nodes of a part are canonical wherever the part stands. -/
theorem forall_within_isCanonical {step : Step} {ns : List Node} :
    (∀ n ∈ within step ns, n.IsCanonical) ↔ ∀ n ∈ ns, n.IsCanonical := by
  simp only [within, List.forall_mem_map]
  exact Iff.rfl

/-- What is read from a value is written as that value just when its nodes are canonical. -/
def KeepsCanonical (raw : Json Double) : Prop :=
  ∀ v, decode raw = .ok v → (encode v = raw ↔ ∀ n ∈ nodes raw, n.IsCanonical)

/-! ### Under a tag -/

/-- Where a defect is reported makes no difference to a success. -/
theorem under_eq_ok_iff {α : Type} {step : Step} {r : Except (Located Defect) α} {a : α} :
    Located.under step r = .ok a ↔ r = .ok a := by
  cases r <;> simp [Located.under]

/-- A result that is changed is a success if it was one before. -/
theorem map_eq_ok_iff {ε α β : Type} {f : α → β} {r : Except ε α} {b : β} :
    r.map f = .ok b ↔ ∃ a, r = .ok a ∧ f a = b := by
  cases r <;> simp [Except.map]

/-- An integer was read from a string. -/
theorem exists_of_decodeInteger {tag : Text} {read : Text → Option Int} {range : Int × Int}
    {raw : Json Double} {n : Int} (h : decodeInteger tag read range raw = .ok n) :
    ∃ t, raw = .string t ∧ read t = some n := by
  cases raw with
  | string t =>
    refine ⟨t, rfl, ?_⟩
    rw [decodeInteger] at h
    split at h
    · cases h
    · next hread =>
      split at h
      · cases h
      · rw [hread, Except.ok.inj h]
  | _ => cases h

/-- A double was read from a number. -/
theorem eq_of_decodeDouble {raw : Json Double} {x : Double} (h : decodeDouble raw = .ok x) :
    raw = .number x := by
  cases raw with
  | number y =>
    cases h
    rfl
  | _ => cases h

/-- Bytes were read from a string in base64. -/
theorem exists_of_decodeData {raw : Json Double} {bytes : Utf8.Bytes} (h : decodeData raw = .ok bytes) :
    ∃ t, raw = .string t ∧ Base64.decode? t = some bytes := by
  cases raw with
  | string t =>
    refine ⟨t, rfl, ?_⟩
    rw [decodeData] at h
    split at h
    · next hread => rw [hread, Except.ok.inj h]
    · cases h
  | _ => cases h

/-- Of an object with one tag only what stands under it can fail to be canonical. -/
theorem forall_nodes_tagged_isCanonical {tag : Text} (h : tag ∈ tags) {raw : Json Double} :
    (∀ n ∈ nodes (tagged tag raw), n.IsCanonical) ↔ ∀ n ∈ payloadNodes tag raw, n.IsCanonical := by
  have htree : (⟨[], .tree, tagged tag raw⟩ : Node).IsCanonical := trivial
  rw [nodes_tagged h, List.forall_mem_cons, forall_within_isCanonical, and_iff_right htree]

/-- What stands under a tag other than that of dictionaries is canonical if its one node is. -/
theorem forall_nodes_scalar_isCanonical {tag : Text} (h : tag ∈ tags) (hne : tag ≠ "dictionary")
    {raw : Json Double} :
    (∀ n ∈ nodes (tagged tag raw), n.IsCanonical) ↔ (⟨[], .payload tag, raw⟩ : Node).IsCanonical := by
  rw [forall_nodes_tagged_isCanonical h, payloadNodes_of_ne hne, List.forall_mem_singleton]

/-- Different values stand differently under a tag. -/
theorem tagged_inj {tag : Text} {raw raw' : Json Double} : tagged tag raw = tagged tag raw' ↔ raw = raw' := by
  simp [tagged]

/-- The two kinds of integers, which differ in their tag, their range and how their texts are read. -/
theorem keepsCanonical_integer {tag : Text} (htag : tag = "int64" ∨ tag = "uint64")
    {read : Text → Option Int} {range : Int × Int} {make : Int → Value} {raw : Json Double}
    (hdecode : decode (tagged tag raw) =
      Located.under (.field tag) ((decodeInteger tag read range raw).map make))
    (hencode : ∀ n, encode (make n) = tagged tag (.string (Text.ofInt n)))
    (hread : ∀ t n, read t = some n → t.IsDecimal n) : KeepsCanonical (tagged tag raw) := by
  have hmem : tag ∈ tags := by rcases htag with rfl | rfl <;> decide
  have hne : tag ≠ "dictionary" := by rcases htag with rfl | rfl <;> decide
  have hdata : tag ≠ "data" := by rcases htag with rfl | rfl <;> decide
  intro v hv
  rw [hdecode, under_eq_ok_iff, map_eq_ok_iff] at hv
  obtain ⟨n, hn, rfl⟩ := hv
  obtain ⟨t, rfl, ht⟩ := exists_of_decodeInteger hn
  rw [hencode, tagged_inj, Json.string.injEq, Text.ofInt_eq_iff (hread t n ht),
    forall_nodes_scalar_isCanonical hmem hne]
  exact ⟨fun hplain => ⟨fun _ => hplain, fun h => absurd h hdata⟩, fun h => h.1 htag⟩

/-- A signed integer is written as it was read just when its digits are plain. -/
theorem keepsCanonical_int64 (raw : Json Double) : KeepsCanonical (tagged "int64" raw) :=
  keepsCanonical_integer (.inl rfl) (decode_tagged_int64 raw) (fun _ => by rw [encode]) fun _ _ =>
    Text.toInt?_eq_some_iff.mp

/-- An unsigned integer is written as it was read just when its digits are plain. -/
theorem keepsCanonical_uint64 (raw : Json Double) : KeepsCanonical (tagged "uint64" raw) :=
  keepsCanonical_integer (.inr rfl) (decode_tagged_uint64 raw) (fun _ => by rw [encode]) fun _ _ h =>
    .inl (unsigned?_eq_some_iff.mp h)

/-- A double has one form. -/
theorem keepsCanonical_double (raw : Json Double) : KeepsCanonical (tagged "double" raw) := by
  intro v hv
  rw [decode_tagged_double, under_eq_ok_iff, map_eq_ok_iff] at hv
  obtain ⟨x, hx, rfl⟩ := hv
  obtain rfl := eq_of_decodeDouble hx
  rw [encode, forall_nodes_scalar_isCanonical (by decide) (by decide)]
  exact iff_of_true rfl trivial

/-- Bytes are written as they were read just when their base64 is canonical. -/
theorem keepsCanonical_data (raw : Json Double) : KeepsCanonical (tagged "data" raw) := by
  intro v hv
  rw [decode_tagged_data, under_eq_ok_iff, map_eq_ok_iff] at hv
  obtain ⟨bytes, hbytes, rfl⟩ := hv
  obtain ⟨t, rfl, ht⟩ := exists_of_decodeData hbytes
  rw [encode, tagged_inj, Json.string.injEq, Base64.encode_eq_iff ht,
    forall_nodes_scalar_isCanonical (by decide) (by decide)]
  refine ⟨fun hcanonical => ⟨fun h => ?_, fun _ => hcanonical⟩, fun h => h.2 rfl⟩
  exact absurd h (by decide)

/-! ### Items and entries -/

/-- Items are written as they were read just when their nodes are canonical. -/
theorem encodeItems_eq_iff {items : List (Json Double)} (h : ∀ item ∈ items, KeepsCanonical item)
    {index : Nat} {values : List Value} (hread : decodeItems index items = .ok values) :
    encodeItems values = items ↔ ∀ n ∈ itemNodes index items, n.IsCanonical := by
  induction items generalizing index values with
  | nil =>
    rw [decodeItems] at hread
    obtain rfl := Except.ok.inj hread
    rw [encodeItems, itemNodes]
    simp
  | cons item rest ih =>
    rw [decodeItems] at hread
    split at hread
    · cases hread
    · next value hvalue =>
      obtain ⟨values, hvalues, rfl⟩ := map_eq_ok_iff.mp hread
      rw [under_eq_ok_iff] at hvalue
      have hitem := h item List.mem_cons_self value hvalue
      have hrest := ih (fun i hi => h i (List.mem_cons_of_mem item hi)) hvalues
      rw [encodeItems, itemNodes, List.cons.injEq, List.forall_mem_append, forall_within_isCanonical, hitem,
        hrest]

/-- Entries are added to those before them; the keys before them have no part in how they are written. -/
theorem encodeEntries_eq_iff {pairs : List (Json Double)}
    (h : ∀ entry, pair entry ∈ pairs → KeepsCanonical entry.2) {index : Nat} {before entries : Entries Value}
    (keys : List Text) (hread : decodePairs index before pairs = .ok entries) :
    ∃ added, entries = before ++ added ∧
      (encodeEntries added = pairs ↔ ∀ n ∈ entryNodes index keys pairs, n.IsCanonical) := by
  induction pairs generalizing index before keys with
  | nil =>
    rw [decodePairs] at hread
    obtain rfl := Except.ok.inj hread
    refine ⟨[], (List.append_nil before).symm, ?_⟩
    rw [encodeEntries, entryNodes]
    simp
  | cons raw rest ih =>
    by_cases hpair : ∃ entry, raw = pair entry
    · obtain ⟨⟨key, value⟩, rfl⟩ := hpair
      have hself : (⟨[], .entry keys, pair (key, value)⟩ : Node).IsCanonical := trivial
      rw [pair, decodePairs] at hread
      split at hread
      · cases hread
      · split at hread
        · cases hread
        · next v hv =>
          rw [under_eq_ok_iff, under_eq_ok_iff] at hv
          have hvalue := h (key, value) List.mem_cons_self v hv
          obtain ⟨added, hentries, hrest⟩ :=
            ih (fun entry hentry => h entry (List.mem_cons_of_mem _ hentry)) (keys ++ [key]) hread
          refine ⟨(key, v) :: added, by rw [hentries, List.append_assoc, List.singleton_append], ?_⟩
          rw [pair, encodeEntries, entryNodes, List.forall_mem_append, forall_within_isCanonical,
            List.forall_mem_cons, and_iff_right hself, forall_within_isCanonical, List.cons.injEq, hrest,
            ← hvalue]
          simp
    · rw [decodePairs] at hread
      · cases hread
      · exact fun key value hraw => hpair ⟨(key, value), hraw⟩

/-- A dictionary is written as it was read just when its nodes are canonical. -/
theorem keepsCanonical_dictionary {raw : Json Double}
    (h : ∀ pairs, raw = .array pairs → ∀ entry, pair entry ∈ pairs → KeepsCanonical entry.2) :
    KeepsCanonical (tagged "dictionary" raw) := by
  intro v hv
  rw [decode_tagged_dictionary, under_eq_ok_iff] at hv
  cases raw with
  | array pairs =>
    rw [decodeDictionary, map_eq_ok_iff] at hv
    obtain ⟨entries, hentries, rfl⟩ := hv
    have hself : (⟨[], .payload "dictionary", .array pairs⟩ : Node).IsCanonical := trivial
    obtain ⟨added, rfl, hadded⟩ := encodeEntries_eq_iff (h pairs rfl) [] hentries
    rw [forall_nodes_tagged_isCanonical (by decide), payloadNodes, if_pos rfl, List.forall_mem_cons,
      and_iff_right hself, ← hadded, encode, tagged_inj, Json.array.injEq]
  | _ => cases hv

/-! ### The canonical form -/

/-- What is read from a value is written as that value just when all its nodes are canonical. -/
theorem keepsCanonical (raw : Json Double) : KeepsCanonical raw := by
  induction raw using wire_induction with
  | h raw hitems hentries =>
    cases raw with
    | null =>
      rintro v ⟨⟩
      simp [encode, nodes, Node.IsCanonical]
    | bool b =>
      rintro v ⟨⟩
      simp [encode, nodes, Node.IsCanonical]
    | string t =>
      rintro v ⟨⟩
      simp [encode, nodes, Node.IsCanonical]
    | number x => rintro v ⟨⟩
    | array items =>
      intro v hv
      rw [decode, map_eq_ok_iff] at hv
      obtain ⟨values, hvalues, rfl⟩ := hv
      have hself : (⟨[], .tree, .array items⟩ : Node).IsCanonical := trivial
      rw [encode, nodes, List.forall_mem_cons, and_iff_right hself, Json.array.injEq,
        encodeItems_eq_iff (hitems items rfl) hvalues]
    | object members =>
      rcases members with _ | ⟨⟨tag, raw⟩, _ | ⟨second, rest⟩⟩
      · rintro v ⟨⟩
      · by_cases htag : tag ∈ tags
        · simp only [tags, List.mem_cons, List.not_mem_nil, or_false] at htag
          rcases htag with rfl | rfl | rfl | rfl | rfl
          · exact keepsCanonical_int64 raw
          · exact keepsCanonical_uint64 raw
          · exact keepsCanonical_double raw
          · exact keepsCanonical_data raw
          · refine keepsCanonical_dictionary ?_
            rintro pairs rfl
            exact hentries pairs rfl
        · intro v hv
          rw [decode_of_not_mem_tags htag] at hv
          cases hv
      · rintro v ⟨⟩

/-- What is read is written in a form that is read as the same. -/
theorem decode_encode_of_decode {raw : Json Double} {v : Value} (h : decode raw = .ok v) :
    decode (encode v) = .ok v := by
  obtain ⟨hfits, hkeys⟩ := kept_of_decode h
  exact decode_encode v hkeys hfits

/-- Reading and then writing brings a wire form into its canonical form. That is a wire form of the same
tree and its own canonical form, and differs from the given one unless every integer is in plain digits
and all bytes are in canonical base64. Two wire forms have the same canonical form when they are wire
forms of the same tree. -/
theorem canonical_form_of_decode {raw : Json Double} {v : Value} (h : decode raw = .ok v) :
    decode (encode v) = .ok v ∧ (decode (encode v)).map encode = .ok (encode v) ∧
      (encode v = raw ↔ ∀ n ∈ nodes raw, n.IsCanonical) ∧
        ∀ other u, decode other = .ok u → (encode u = encode v ↔ u = v) := by
  have hback := decode_encode_of_decode h
  refine ⟨hback, ?_, keepsCanonical raw v h, fun other u hu => ⟨fun heq => ?_, fun heq => by rw [heq]⟩⟩
  · rw [hback]
    rfl
  · have hother := decode_encode_of_decode hu
    rw [heq, hback] at hother
    exact (Except.ok.inj hother).symm

/-- A wire form with zeros in front, minus zero, and a byte in base64 without padding and with a bit to
spare. -/
def crookedForm : Json Double :=
  .array [tagged "int64" (.string "-007"), tagged "int64" (.string "-0"),
    tagged "dictionary" (.array [pair ("k", tagged "data" (.string "QR"))])]

/-- The canonical form of the same tree. -/
def straightForm : Json Double :=
  .array [tagged "int64" (.string "-7"), tagged "int64" (.string "0"),
    tagged "dictionary" (.array [pair ("k", tagged "data" (.string "QQ=="))])]

/-- The crooked form is read as a tree whose wire form is the straight one. -/
theorem canonical_form_of_decode_crookedForm :
    ∃ v, decode crookedForm = .ok v ∧ encode v = straightForm ∧ decode straightForm = .ok v ∧
      ¬∀ n ∈ nodes crookedForm, n.IsCanonical := by
  have hread : decode crookedForm =
      .ok (.array [.int64 (-7), .int64 0, .dictionary [("k", .data [0x41])]]) := rfl
  have hwritten : encode (.array [.int64 (-7), .int64 0, .dictionary [("k", .data [0x41])]]) =
      straightForm := rfl
  obtain ⟨hback, -, hsame, -⟩ := canonical_form_of_decode hread
  rw [hwritten] at hback hsame
  have hzeros : ("-7" : Text) ≠ "-007" := by decide
  have hdiffer : straightForm ≠ crookedForm := by simp [straightForm, crookedForm, tagged, hzeros]
  exact ⟨_, hread, hwritten, hback, mt hsame.mpr hdiffer⟩

end Wire

end SwiftLens
