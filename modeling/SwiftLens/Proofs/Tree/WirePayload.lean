import SwiftLens.Fault
import SwiftLens.Proofs.Tree.WireCanonical

/-!
# Byte strings on the wire

A byte string travels as base64. A text is well formed (`Base64.IsWellFormed`) when its letters leave no
single letter over after groups of four and its padding is absent or fills the last group. Reading accepts
more than that: any number of letters, with up to two `=` after them (`Base64.IsText`).

`data_payload_read` says what this costs. Of two letters that are left over, or of three, each still shows in
some byte, even where the last of its bits do not. A single letter that is left over holds less than a byte
and shows in none: it is dropped, whatever it is. So the well-formed texts lose nothing, and what is accepted
beyond them may lose its last letter (`last_letter_dropped`).
-/

namespace SwiftLens

namespace Base64

/-- A base64 text is well formed: letters, not one more than groups of four, and then no padding or as many
`=` as fill the last group. -/
def IsWellFormed (t : Text) : Prop :=
  ∃ (front : Text) (pads : Nat),
    t = front ++ List.replicate pads CodeUnit.equals ∧ (∀ c ∈ front, IsLetter c) ∧
      front.length % 4 ≠ 1 ∧ (pads = 0 ∨ pads = (4 - front.length % 4) % 4)

/-! ### Letters and their numbers -/

/-- The number that a letter stands for. -/
def number (c : CodeUnit) : Nat := (sextet? c).getD 0

/-- A letter stands for its number. -/
theorem number_letter {n : Nat} (h : n < 64) : number (letter n) = n := by
  rw [number, sextet?_letter h, Option.getD_some]

/-- The letters of the alphabet. -/
theorem isLetter_letter {n : Nat} (h : n < 64) : IsLetter (letter n) := by
  rw [← isSome_sextet?_iff, sextet?_letter h, Option.isSome_some]

/-- No letter stands for more than six bits. -/
theorem number_lt (c : CodeUnit) : number c < 64 := by
  unfold number sextet? CodeUnit.isDigit
  simp only [UInt16.le_iff_toNat_le, ← UInt16.toNat_inj, UInt16.reduceToNat, Bool.and_eq_true,
    decide_eq_true_eq]
  split_ifs <;> simp only [Option.getD_some, Option.getD_none] <;> omega

variable {front : Text} {pads : Nat}

/-- Letters are read as their numbers, and none is left out. -/
theorem filterMap_sextet? (h : ∀ c ∈ front, IsLetter c) : front.filterMap sextet? = front.map number := by
  rw [← List.filterMap_eq_map]
  apply List.filterMap_congr
  intro c hc
  obtain ⟨n, hn⟩ := Option.isSome_iff_exists.mp ((isSome_sextet?_iff c).mpr (h c hc))
  rw [hn, Function.comp_apply, number, hn, Option.getD_some]

/-- The letters of a text are found before its padding. -/
theorem letters_append_pads (h : ∀ c ∈ front, IsLetter c) :
    letters (front ++ List.replicate pads CodeUnit.equals) = front := by
  have hsome : ∀ c ∈ front, (sextet? c).isSome = true := fun c hc => (isSome_sextet?_iff c).mpr (h c hc)
  rw [letters, List.takeWhile_append_of_pos hsome, List.takeWhile_replicate, sextet?_equals]
  simp

/-- Letters with at most two pads are read as the bytes that their numbers pack. -/
theorem decode?_append_pads (h : ∀ c ∈ front, IsLetter c) (hpads : pads ≤ 2) :
    decode? (front ++ List.replicate pads CodeUnit.equals) = some (pack (front.map number)) := by
  have haccepted := (isAccepted_iff _).mpr ⟨front, pads, rfl, h, hpads⟩
  rw [decode?, if_pos haccepted, letters_append_pads h, filterMap_sextet? h]

/-- What a text lacks that is accepted and not well formed. -/
theorem isWellFormed_iff (t : Text) :
    IsWellFormed t ↔ IsText t ∧ (letters t).length % 4 ≠ 1 ∧
      (t.length = (letters t).length ∨ t.length % 4 = 0) := by
  constructor
  · rintro ⟨front, pads, rfl, hfront, hlength, hpads⟩
    refine ⟨⟨front, pads, rfl, hfront, by omega⟩, ?_⟩
    rw [letters_append_pads hfront, List.length_append, List.length_replicate]
    exact ⟨hlength, by omega⟩
  · rintro ⟨⟨front, pads, rfl, hfront, htwo⟩, hlength, hpads⟩
    rw [letters_append_pads hfront] at hlength hpads
    rw [List.length_append, List.length_replicate] at hpads
    exact ⟨front, pads, rfl, hfront, hlength, by omega⟩

/-! ### What each number adds -/

/-- The number of whole bytes in groups of six bits. -/
theorem length_pack : (ns : List Nat) → (pack ns).length = 3 * ns.length / 4
  | [] | [_] | [_, _] | [_, _, _] => by simp [pack]
  | a :: b :: c :: d :: rest => by
      simp only [pack, List.length_append, List.length_cons, List.length_nil, length_pack rest]
      omega

/-- A single number after groups of four adds nothing. -/
theorem pack_concat_of_groups : (ns : List Nat) → ns.length % 4 = 0 → ∀ n, pack (ns ++ [n]) = pack ns
  | [], _, _ => rfl
  | [_], h, _ | [_, _], h, _ | [_, _, _], h, _ => by simp at h
  | a :: b :: c :: d :: rest, h, n => by
      simp only [List.length_cons] at h
      rw [List.cons_append, List.cons_append, List.cons_append, List.cons_append, pack, pack,
        pack_concat_of_groups rest (by omega) n]

/-- Of every other number at least the two highest bits can be read off the bytes. -/
theorem high_sextets_pack : (ns : List Nat) → (∀ n ∈ ns, n < 64) → ns.length % 4 ≠ 1 →
    (sextets (pack ns)).map (· / 16) = ns.map (· / 16)
  | [], _, _ => rfl
  | [_], _, h => absurd rfl h
  | [a, b], hns, _ => by
      simp only [List.forall_mem_cons] at hns
      obtain ⟨ha, hb, -⟩ := hns
      simp only [pack, sextets, List.map_cons, List.map_nil, List.cons.injEq, and_true]
      rw [toNat_byte (by omega)]
      omega
  | [a, b, c], hns, _ => by
      simp only [List.forall_mem_cons] at hns
      obtain ⟨ha, hb, hc, -⟩ := hns
      simp only [pack, sextets, List.map_cons, List.map_nil, List.cons.injEq, and_true]
      rw [toNat_byte (by omega), toNat_byte (by omega)]
      omega
  | a :: b :: c :: d :: rest, hns, h => by
      simp only [List.forall_mem_cons] at hns
      obtain ⟨ha, hb, hc, hd, hrest⟩ := hns
      simp only [List.length_cons] at h
      have hmore := high_sextets_pack rest hrest (by omega)
      simp only [pack, List.cons_append, List.nil_append, sextets, List.map_cons, hmore, List.cons.injEq,
        and_true]
      rw [toNat_byte (by omega), toNat_byte (by omega), toNat_byte (by omega)]
      omega

variable {ns : List Nat} {i : Nat}

/-- In a row that leaves no single number over, every number shows. -/
theorem high_of_pack_set_eq (hns : ∀ n ∈ ns, n < 64) (hlength : ns.length % 4 ≠ 1) (hi : i < ns.length)
    {m : Nat} (hm : m < 64) (h : pack (ns.set i m) = pack ns) : m / 16 = ns[i] / 16 := by
  have hset : ∀ n ∈ ns.set i m, n < 64 := by
    intro n hn
    rcases List.mem_or_eq_of_mem_set hn with hn | rfl
    · exact hns n hn
    · exact hm
  have hhigh : (ns.set i m).map (· / 16) = ns.map (· / 16) := by
    rw [← high_sextets_pack ns hns hlength, ← h]
    exact (high_sextets_pack _ hset (by rwa [List.length_set])).symm
  have hat := congrArg (·[i]?) hhigh
  simpa [hi] using hat

/-- The bytes do not depend on a number just when it is a single one that is left over. -/
theorem pack_set_eq_iff (hns : ∀ n ∈ ns, n < 64) (hi : i < ns.length) :
    (∀ m < 64, pack (ns.set i m) = pack ns) ↔ i + 1 = ns.length ∧ ns.length % 4 = 1 := by
  -- a number whose two highest bits differ from those of the one in place
  have hother : ∀ n, ∃ m < 64, m / 16 ≠ n / 16 := by
    intro n
    by_cases hn : n / 16 = 0
    · exact ⟨16, by omega, by omega⟩
    · exact ⟨0, by omega, by omega⟩
  obtain ⟨m, hm, hne⟩ := hother ns[i]
  by_cases hlength : ns.length % 4 = 1
  · rcases List.eq_nil_or_concat' ns with rfl | ⟨front, last, rfl⟩
    · cases hlength
    rw [List.length_append, List.length_singleton] at hlength hi ⊢
    have hgroups : ∀ row : List Nat, row.length = front.length → ∀ n, pack (row ++ [n]) = pack row :=
      fun row hrow => pack_concat_of_groups row (by omega)
    by_cases hlast : i = front.length
    · subst hlast
      refine iff_of_true (fun m _ => ?_) ⟨rfl, hlength⟩
      rw [List.set_append_right _ _ (Nat.le_refl _), Nat.sub_self, List.set_cons_zero, hgroups _ rfl,
        hgroups _ rfl]
    · have hfront : i < front.length := by omega
      refine iff_of_false (fun h => ?_) fun h => hlast (by omega)
      have hkept := h m hm
      rw [List.set_append_left _ _ hfront, hgroups _ (List.length_set ..), hgroups _ rfl] at hkept
      rw [List.getElem_append_left hfront] at hne
      exact hne (high_of_pack_set_eq (fun n hn => hns n (List.mem_append_left _ hn)) (by omega) hfront hm
        hkept)
  · refine iff_of_false (fun h => ?_) fun h => hlength h.2
    exact hne (high_of_pack_set_eq hns hlength hi hm (h m hm))

end Base64

namespace Wire

open Base64 (IsLetter IsText IsWellFormed letters letter number pack)

variable {t front : Text} {pads : Nat}

/-- A letter of a payload is dropped: what is read is the same whichever letter stands in its place. -/
def IsDropped (t : Text) (i : Nat) : Prop :=
  ∀ c, IsLetter c → decode (tagged "data" (.string (t.set i c))) = decode (tagged "data" (.string t))

/-- A payload of letters with at most two pads is accepted. -/
theorem decode_payload_of_isText (h : ∀ c ∈ front, IsLetter c) (hpads : pads ≤ 2) :
    decode (tagged "data" (.string (front ++ List.replicate pads CodeUnit.equals))) =
      .ok (.data (pack (front.map number))) := by
  rw [decode_tagged_data, decodeData, Base64.decode?_append_pads h hpads]
  rfl

/-- Any other payload is refused where it stands. -/
theorem decode_payload_of_not_isText (h : ¬IsText t) :
    decode (tagged "data" (.string t)) = .error ⟨[.field "data"], .notBase64⟩ := by
  rw [← Base64.isAccepted_iff] at h
  rw [decode_tagged_data, decodeData, Base64.decode?, if_neg h]
  rfl

/-- A letter of an accepted payload is dropped just when it is a single one that is left over. -/
theorem isDropped_iff (h : ∀ c ∈ front, IsLetter c) (hpads : pads ≤ 2) {i : Nat} (hi : i < front.length) :
    IsDropped (front ++ List.replicate pads CodeUnit.equals) i ↔
      i + 1 = front.length ∧ front.length % 4 = 1 := by
  have hread : ∀ c, IsLetter c →
      decode (tagged "data" (.string ((front ++ List.replicate pads CodeUnit.equals).set i c))) =
        .ok (.data (pack ((front.map number).set i (number c)))) := by
    intro c hc
    have hset : ∀ d ∈ front.set i c, IsLetter d := by
      intro d hd
      rcases List.mem_or_eq_of_mem_set hd with hd | rfl
      · exact h d hd
      · exact hc
    rw [List.set_append_left _ _ hi, decode_payload_of_isText hset hpads, List.map_set]
  have hnumbers : ∀ n ∈ front.map number, n < 64 := by
    intro n hn
    obtain ⟨c, -, rfl⟩ := List.mem_map.mp hn
    exact Base64.number_lt c
  have hpack := Base64.pack_set_eq_iff hnumbers (i := i) (by rwa [List.length_map])
  rw [List.length_map] at hpack
  rw [← hpack]
  constructor
  · intro hdropped m hm
    have hletter := Base64.isLetter_letter hm
    have hsame := hdropped (letter m) hletter
    rw [hread _ hletter, decode_payload_of_isText h hpads, Base64.number_letter hm] at hsame
    exact Value.data.inj (Except.ok.inj hsame)
  · intro hsame c hc
    rw [hread c hc, decode_payload_of_isText h hpads, hsame _ (Base64.number_lt c)]

/-- A payload is read just when it is letters and then at most two `=`; any other is refused as what is not in
the form of the wire. The bytes are three for every four letters. Of the letters none is dropped, except the
last one when a single one is left over after groups of four; so the well-formed payloads, which are those of
the accepted ones that leave no single letter and whose padding is absent or complete, lose nothing. -/
theorem data_payload_read (t : Text) :
    let raw := tagged "data" (.string t)
    let count := (letters t).length
    ((∃ v, decode raw = .ok v) ↔ IsText t) ∧
    (∀ e, decode raw = .error e → e = ⟨[.field "data"], .notBase64⟩ ∧
      ∀ base, (Fault.wire base e).code? = some .helperProtocol) ∧
    (IsWellFormed t ↔ IsText t ∧ count % 4 ≠ 1 ∧ (t.length = count ∨ t.length % 4 = 0)) ∧
    ∀ v, decode raw = .ok v → ∃ bytes, v = .data bytes ∧ bytes.length = 3 * count / 4 ∧
      ∀ i < count, IsDropped t i ↔ i + 1 = count ∧ count % 4 = 1 := by
  intro raw count
  by_cases htext : IsText t
  · have haccepted := htext
    obtain ⟨front, pads, rfl, hfront, hpads⟩ := htext
    have hcount : count = front.length := congrArg List.length (Base64.letters_append_pads hfront)
    have hread : decode raw = .ok (.data (pack (front.map number))) := decode_payload_of_isText hfront hpads
    refine ⟨iff_of_true ⟨_, hread⟩ haccepted, ?_, Base64.isWellFormed_iff _, ?_⟩
    · intro e he
      rw [hread] at he
      cases he
    · intro v hv
      rw [hread] at hv
      refine ⟨_, (Except.ok.inj hv).symm, ?_, ?_⟩
      · rw [Base64.length_pack, List.length_map, hcount]
      · rw [hcount]
        exact fun i hi => isDropped_iff hfront hpads hi
  · have hrefused : decode raw = .error ⟨[.field "data"], .notBase64⟩ := decode_payload_of_not_isText htext
    refine ⟨iff_of_false ?_ htext, ?_, Base64.isWellFormed_iff t, ?_⟩
    · rintro ⟨v, hv⟩
      rw [hrefused] at hv
      cases hv
    · intro e he
      rw [hrefused] at he
      obtain rfl := Except.error.inj he
      exact ⟨rfl, fun _ => rfl⟩
    · intro v hv
      rw [hrefused] at hv
      cases hv

/-- A payload that is not well formed is read, and its last letter is lost. -/
theorem last_letter_dropped :
    ¬IsWellFormed "AQIDB" ∧ decode (tagged "data" (.string "AQIDB")) = .ok (.data [1, 2, 3]) ∧
      decode (tagged "data" (.string "AQID")) = .ok (.data [1, 2, 3]) := by
  refine ⟨?_, rfl, rfl⟩
  rw [Base64.isWellFormed_iff]
  rintro ⟨-, hcount, -⟩
  exact hcount rfl

end Wire

end SwiftLens
