import SwiftLens.Proofs.Tree.WireRoundTrip

/-!
# The wire form as a grammar

`IsWireForm` says which JSON values are wire forms, without mentioning how they are read.

To say where a value departs from the grammar, its nodes are listed (`nodes`) in the order in which a
reader meets them from left to right, each before its parts. A node is met as a tree, as what stands
under a tag, or as an entry that follows other keys, and `Node.IsSound` says of each by itself whether
it is in order. A repeated key is a fault of the entry, so it comes before anything inside the entry's
value.

Two facts tie the list to the value it was made from: the location of each node leads to it
(`at?_of_mem_nodes`), and a value is a wire form when all its nodes are sound (`forall_isSound_iff`).
-/

namespace SwiftLens

/-! ### The way to a part -/

namespace Json

variable {ν : Type}

/-- The part of a value that a step leads to. -/
def part? : Step → Json ν → Option (Json ν)
  | .field name, .object members => Entries.get? name members
  | .item index, .array items => items[index]?
  | _, _ => none

/-- The node of a value that a location leads to. -/
def at? : Location → Json ν → Option (Json ν)
  | [], raw => some raw
  | step :: rest, raw => (part? step raw).bind (at? rest)

/-- The empty location leads to the whole. -/
@[simp] theorem at?_nil (raw : Json ν) : at? [] raw = some raw := rfl

/-- The first step leads to a part, and the rest of the way goes on from there. -/
theorem at?_cons_of_part? {step : Step} {raw part : Json ν} (h : part? step raw = some part)
    (rest : Location) : at? (step :: rest) raw = at? rest part := by
  rw [at?, h, Option.bind_some]

/-- The item that follows the given ones is at their number. -/
theorem part?_item (before : List (Json ν)) (item : Json ν) (rest : List (Json ν)) :
    part? (.item before.length) (.array (before ++ item :: rest)) = some item := by
  simp [part?]

end Json

/-! ### Texts of the grammar -/

/-- A text is the decimal form of an integer: digits, after a minus sign or not. -/
def Text.IsDecimal (t : Text) (n : Int) : Prop :=
  (t.isDigits = true ∧ n = t.digitsValue) ∨
    ∃ digits : Text, t = CodeUnit.minus :: digits ∧ digits.isDigits = true ∧ n = -digits.digitsValue

namespace Base64

/-- A unit of the base64 alphabet: a capital letter, a small letter, a digit, `+` or `/`. -/
def IsLetter (c : CodeUnit) : Prop :=
  (0x41 ≤ c ∧ c ≤ 0x5A) ∨ (0x61 ≤ c ∧ c ≤ 0x7A) ∨ (0x30 ≤ c ∧ c ≤ 0x39) ∨ c = 0x2B ∨ c = 0x2F

/-- A text is letters of the alphabet and then at most two `=`. -/
def IsText (t : Text) : Prop :=
  ∃ (letters : Text) (pads : Nat),
    t = letters ++ List.replicate pads CodeUnit.equals ∧ (∀ c ∈ letters, IsLetter c) ∧ pads ≤ 2

end Base64

/-! ### The grammar -/

namespace Wire

/-- What may stand under a tag other than that of dictionaries. -/
inductive IsScalar (tag : Text) : Json Double → Prop
  /-- A signed integer of 64 bits, in decimal. -/
  | signed (h : tag = "int64") {t : Text} {n : Int} (ht : t.IsDecimal n) (low : -2 ^ 63 ≤ n)
      (high : n ≤ 2 ^ 63 - 1) : IsScalar tag (.string t)
  /-- An integer of 64 bits without a sign, in decimal. -/
  | unsigned (h : tag = "uint64") {t : Text} (ht : t.isDigits = true)
      (high : (t.digitsValue : Int) ≤ 2 ^ 64 - 1) : IsScalar tag (.string t)
  /-- A number. -/
  | double (h : tag = "double") (x : Double) : IsScalar tag (.number x)
  /-- Bytes in base64. -/
  | data (h : tag = "data") {t : Text} (ht : Base64.IsText t) : IsScalar tag (.string t)

/-- An entry of a dictionary: a key and a value. -/
def pair (entry : Text × Json Double) : Json Double := .array [.string entry.1, entry.2]

/-- A JSON value is the wire form of a tree. -/
inductive IsWireForm : Json Double → Prop
  | null : IsWireForm .null
  | bool (b : Bool) : IsWireForm (.bool b)
  | string (t : Text) : IsWireForm (.string t)
  /-- An array of wire forms. -/
  | array {items : List (Json Double)} (h : ∀ item ∈ items, IsWireForm item) :
      IsWireForm (.array items)
  /-- An object whose only key is a tag, over an integer, a number or bytes. -/
  | scalar {tag : Text} {raw : Json Double} (h : IsScalar tag raw) : IsWireForm (.object [(tag, raw)])
  /-- An object whose only key is the tag of dictionaries, over pairs with distinct keys. -/
  | dictionary {entries : List (Text × Json Double)} (hkeys : (Entries.keys entries).Nodup)
      (h : ∀ entry ∈ entries, IsWireForm entry.2) :
      IsWireForm (.object [("dictionary", .array (entries.map pair))])

/-! ### Nodes in reading order -/

/-- What a JSON value is met as. -/
inductive Role where
  /-- The wire form of a tree. -/
  | tree
  /-- What stands under a tag. -/
  | payload (tag : Text)
  /-- An entry of a dictionary, after entries with the given keys. -/
  | entry (before : List Text)

/-- A node of a JSON value: where it is, what it is met as and what is there. -/
structure Node where
  location : Location
  role : Role
  raw : Json Double

/-- The keys that are tags. -/
def tags : List Text := ["int64", "uint64", "double", "data", "dictionary"]

/-- A node is in order as far as it can be told without its parts. -/
def Node.IsSound (node : Node) : Prop :=
  match node.role with
  | .tree =>
    match node.raw with
    | .number _ => False
    | .object members => ∃ tag raw, members = [(tag, raw)] ∧ tag ∈ tags
    | _ => True
  | .payload tag => IsScalar tag node.raw ∨ (tag = "dictionary" ∧ ∃ pairs, node.raw = .array pairs)
  | .entry before => ∃ key value, node.raw = pair (key, value) ∧ key ∉ before

/-- Nodes of a part, as seen from the whole. -/
def within (step : Step) (nodes : List Node) : List Node :=
  nodes.map fun node => { node with location := step :: node.location }

/-- Named here, so that the equations of `nodes` speak of it and not of a proof made up in passing. -/
local instance lawfulBEqTag : LawfulBEq Text := inferInstance

mutual

/-- The nodes of a value that is met as a tree, in reading order. -/
def nodes : Json Double → List Node
  | .array items => ⟨[], .tree, .array items⟩ :: itemNodes 0 items
  | .object [(tag, raw)] =>
    ⟨[], .tree, .object [(tag, raw)]⟩ ::
      if tag ∈ tags then within (.field tag) (payloadNodes tag raw) else []
  | raw => [⟨[], .tree, raw⟩]

/-- The nodes of items, the first of which has the given number. -/
def itemNodes (index : Nat) : List (Json Double) → List Node
  | [] => []
  | item :: rest => within (.item index) (nodes item) ++ itemNodes (index + 1) rest

/-- The nodes of what stands under a tag. -/
def payloadNodes (tag : Text) : Json Double → List Node
  | .array pairs =>
    ⟨[], .payload tag, .array pairs⟩ :: if tag = "dictionary" then entryNodes 0 [] pairs else []
  | raw => [⟨[], .payload tag, raw⟩]

/-- The nodes of entries, the first of which has the given number and follows the given keys. -/
def entryNodes (index : Nat) (before : List Text) : List (Json Double) → List Node
  | [] => []
  | .array [.string key, value] :: rest =>
    within (.item index) (⟨[], .entry before, pair (key, value)⟩ :: within (.item 1) (nodes value))
      ++ entryNodes (index + 1) (before ++ [key]) rest
  | raw :: rest => within (.item index) [⟨[], .entry before, raw⟩] ++ entryNodes (index + 1) before rest

end

/-! ### Nodes one by one -/

/-- Where a node stands has no part in whether it is sound. -/
theorem forall_within_isSound {step : Step} {ns : List Node} :
    (∀ n ∈ within step ns, n.IsSound) ↔ ∀ n ∈ ns, n.IsSound := by
  simp only [within, List.forall_mem_map]
  exact Iff.rfl

/-- Under a tag other than that of dictionaries a node is sound when it is a scalar of that tag. -/
theorem isSound_payload_iff {tag : Text} (htag : tag ≠ "dictionary") (location : Location)
    (raw : Json Double) : (⟨location, .payload tag, raw⟩ : Node).IsSound ↔ IsScalar tag raw := by
  simp [Node.IsSound, htag]

/-- The tag of dictionaries has no scalars. -/
theorem not_isScalar_dictionary {raw : Json Double} : ¬IsScalar "dictionary" raw := by
  rintro (h | h | h | h) <;> exact absurd h (by decide)

/-- Under a tag other than that of dictionaries there is one node. -/
theorem payloadNodes_of_ne {tag : Text} (htag : tag ≠ "dictionary") (raw : Json Double) :
    payloadNodes tag raw = [⟨[], .payload tag, raw⟩] := by
  cases raw <;> simp [payloadNodes, htag]

/-- The nodes under an object with one tag. -/
theorem nodes_tagged {tag : Text} (h : tag ∈ tags) (raw : Json Double) :
    nodes (tagged tag raw) =
      ⟨[], .tree, tagged tag raw⟩ :: within (.field tag) (payloadNodes tag raw) := by
  rw [tagged, nodes, if_pos h]

/-- An object with one tag is a sound node. -/
theorem isSound_tagged {tag : Text} (h : tag ∈ tags) (raw : Json Double) :
    (⟨[], .tree, tagged tag raw⟩ : Node).IsSound :=
  ⟨tag, raw, rfl, h⟩

/-- A way to go through a value along its wire form: a statement holds of a value if it holds of the
items of an array and of the values in the pairs of a dictionary. -/
theorem wire_induction {motive : Json Double → Prop}
    (h : ∀ raw, (∀ items, raw = .array items → ∀ item ∈ items, motive item) →
      (∀ pairs, raw = tagged "dictionary" (.array pairs) → ∀ entry, pair entry ∈ pairs →
        motive entry.2) → motive raw) :
    ∀ raw, motive raw := by
  have general : ∀ size raw, sizeOf raw < size → motive raw := by
    intro size
    induction size with
    | zero => intro raw hsize; omega
    | succ size ih =>
      intro raw hsize
      refine h raw ?_ ?_
      · rintro items rfl item hitem
        have := List.sizeOf_lt_of_mem hitem
        simp only [Json.array.sizeOf_spec] at hsize
        exact ih item (by omega)
      · rintro pairs rfl entry hentry
        have hlt := List.sizeOf_lt_of_mem hentry
        simp only [pair, tagged, Json.array.sizeOf_spec, Json.object.sizeOf_spec,
          List.cons.sizeOf_spec, Prod.mk.sizeOf_spec] at hlt hsize
        exact ih entry.2 (by omega)
  exact fun raw => general _ raw (Nat.lt_succ_self _)

/-! ### Locations lead to nodes -/

/-- Every node of a value is what its location leads to. -/
def IsLocated (raw : Json Double) (nodes : List Node) : Prop :=
  ∀ node ∈ nodes, raw.at? node.location = some node.raw

/-- The nodes of a part are located in the whole. -/
theorem IsLocated.within {step : Step} {raw part : Json Double} {nodes : List Node}
    (hpart : Json.part? step raw = some part) (h : IsLocated part nodes) :
    IsLocated raw (within step nodes) := by
  intro node hnode
  obtain ⟨inner, hinner, rfl⟩ := List.mem_map.mp hnode
  rw [Json.at?_cons_of_part? hpart]
  exact h inner hinner

/-- Nodes are where they say if those in either part are. -/
theorem IsLocated.append {raw : Json Double} {ns ms : List Node} (hns : IsLocated raw ns)
    (hms : IsLocated raw ms) : IsLocated raw (ns ++ ms) := by
  intro node hnode
  rcases List.mem_append.mp hnode with hnode | hnode
  · exact hns node hnode
  · exact hms node hnode

/-- A value with the nodes of its parts. -/
theorem IsLocated.cons {raw : Json Double} {role : Role} {ns : List Node} (hns : IsLocated raw ns) :
    IsLocated raw (⟨[], role, raw⟩ :: ns) := by
  have hself : IsLocated raw [⟨[], role, raw⟩] := by simp [IsLocated]
  exact hself.append hns

/-- The nodes of items are located in the array, after the items before them. -/
theorem isLocated_itemNodes {items : List (Json Double)} (h : ∀ item ∈ items, IsLocated item (nodes item))
    (before : List (Json Double)) :
    IsLocated (.array (before ++ items)) (itemNodes before.length items) := by
  induction items generalizing before with
  | nil => simp [itemNodes, IsLocated]
  | cons item rest ih =>
    have hrest := ih (fun i hi => h i (List.mem_cons_of_mem item hi)) (before ++ [item])
    rw [List.length_append, List.length_singleton, List.append_assoc, List.singleton_append] at hrest
    rw [itemNodes]
    exact (IsLocated.within (Json.part?_item before item rest) (h item List.mem_cons_self)).append hrest

/-- The nodes of entries are located in the array of pairs, after the pairs before them. -/
theorem isLocated_entryNodes {pairs : List (Json Double)}
    (h : ∀ entry, pair entry ∈ pairs → IsLocated entry.2 (nodes entry.2))
    (before : List (Json Double)) (keys : List Text) :
    IsLocated (.array (before ++ pairs)) (entryNodes before.length keys pairs) := by
  induction pairs generalizing before keys with
  | nil => simp [entryNodes, IsLocated]
  | cons raw rest ih =>
    have hpart := Json.part?_item before raw rest
    have hrest := fun keys =>
      ih (fun entry hentry => h entry (List.mem_cons_of_mem raw hentry)) (before ++ [raw]) keys
    simp only [List.length_append, List.length_singleton, List.append_assoc,
      List.singleton_append] at hrest
    by_cases hpair : ∃ entry, raw = pair entry
    · obtain ⟨⟨key, value⟩, rfl⟩ := hpair
      have hsecond : Json.part? (.item 1) (pair (key, value)) = some value := rfl
      have hvalue : IsLocated (pair (key, value)) (within (.item 1) (nodes value)) :=
        IsLocated.within hsecond (h (key, value) List.mem_cons_self)
      rw [pair] at hrest ⊢
      rw [entryNodes]
      exact (IsLocated.within hpart hvalue.cons).append (hrest _)
    · rw [entryNodes]
      · exact (IsLocated.within hpart (by simp [IsLocated])).append (hrest _)
      · exact fun key value hraw => hpair ⟨(key, value), hraw⟩

/-- The nodes of what stands under a tag are located in it. -/
theorem isLocated_payloadNodes {tag : Text} {raw : Json Double}
    (h : tag = "dictionary" → ∀ pairs, raw = .array pairs → ∀ entry, pair entry ∈ pairs →
      IsLocated entry.2 (nodes entry.2)) : IsLocated raw (payloadNodes tag raw) := by
  by_cases htag : tag = "dictionary"
  · cases raw with
    | array pairs =>
      rw [payloadNodes, if_pos htag]
      exact (isLocated_entryNodes (h htag pairs rfl) [] []).cons
    | _ => simp [payloadNodes, IsLocated]
  · rw [payloadNodes_of_ne htag]
    simp [IsLocated]

/-- The location of every node of a value leads to it. -/
theorem at?_of_mem_nodes (raw : Json Double) : IsLocated raw (nodes raw) := by
  induction raw using wire_induction with
  | h raw hitems hentries =>
    cases raw with
    | array items =>
      rw [nodes]
      exact (isLocated_itemNodes (hitems items rfl) []).cons
    | object members =>
      match members with
      | [(tag, raw)] =>
        have hpart : Json.part? (.field tag) (.object [(tag, raw)]) = some raw := by
          simp [Json.part?, Entries.get?]
        have hpayload : IsLocated raw (payloadNodes tag raw) := by
          refine isLocated_payloadNodes ?_
          rintro rfl pairs rfl
          exact hentries pairs rfl
        rw [nodes]
        refine IsLocated.cons ?_
        split
        · exact IsLocated.within hpart hpayload
        · simp [IsLocated]
      | [] => simp [nodes, IsLocated]
      | _ :: _ :: _ => simp [nodes, IsLocated]
    | _ => simp [nodes, IsLocated]

/-! ### Sound nodes make a wire form -/

/-- Items all of whose nodes are sound. -/
theorem forall_itemNodes_isSound {items : List (Json Double)} {index : Nat} :
    (∀ n ∈ itemNodes index items, n.IsSound) ↔ ∀ item ∈ items, ∀ n ∈ nodes item, n.IsSound := by
  induction items generalizing index with
  | nil => simp [itemNodes]
  | cons item rest ih =>
    rw [itemNodes, List.forall_mem_append, forall_within_isSound, ih, List.forall_mem_cons]

/-- The nodes of a pair whose key is new are sound when those of its value are. -/
theorem forall_entryNodes_cons_isSound {key : Text} {value : Json Double} {rest : List (Json Double)}
    {index : Nat} {before : List Text} :
    (∀ n ∈ entryNodes index before (pair (key, value) :: rest), n.IsSound) ↔
      key ∉ before ∧ (∀ n ∈ nodes value, n.IsSound) ∧
        ∀ n ∈ entryNodes (index + 1) (before ++ [key]) rest, n.IsSound := by
  have hhead : (⟨[], .entry before, pair (key, value)⟩ : Node).IsSound ↔ key ∉ before := by
    constructor
    · rintro ⟨_, _, hraw, hnew⟩
      cases hraw
      exact hnew
    · intro hnew
      exact ⟨key, value, rfl, hnew⟩
  rw [pair, entryNodes, List.forall_mem_append, forall_within_isSound, List.forall_mem_cons,
    forall_within_isSound, hhead, and_assoc]

/-- Pairs all of whose nodes are sound are pairs of keys that are new each time, over values all of
whose nodes are sound. -/
theorem forall_entryNodes_isSound {pairs : List (Json Double)} {index : Nat} {before : List Text} :
    (∀ n ∈ entryNodes index before pairs, n.IsSound) ↔
      ∃ entries : List (Text × Json Double), pairs = entries.map pair ∧
        (∀ key ∈ Entries.keys entries, key ∉ before) ∧ (Entries.keys entries).Nodup ∧
          ∀ entry ∈ entries, ∀ n ∈ nodes entry.2, n.IsSound := by
  induction pairs generalizing index before with
  | nil =>
    constructor
    · intro _
      exact ⟨[], by simp [Entries.keys]⟩
    · intro _
      simp [entryNodes]
  | cons raw rest ih =>
    constructor
    · intro h
      by_cases hpair : ∃ entry, raw = pair entry
      · obtain ⟨⟨key, value⟩, rfl⟩ := hpair
        obtain ⟨hnew, hvalue, hrest⟩ := forall_entryNodes_cons_isSound.mp h
        obtain ⟨entries, rfl, hbefore, hnodup, hentries⟩ := ih.mp hrest
        refine ⟨(key, value) :: entries, rfl, ?_, ?_, ?_⟩
        · rintro k hk hmem
          rcases List.mem_cons.mp hk with rfl | hk
          · exact hnew hmem
          · exact hbefore k hk (List.mem_append_left _ hmem)
        · refine List.nodup_cons.mpr ⟨fun hk => ?_, hnodup⟩
          exact hbefore key hk (List.mem_append_right _ List.mem_cons_self)
        · exact List.forall_mem_cons.mpr ⟨hvalue, hentries⟩
      · rw [entryNodes] at h
        · obtain ⟨key, value, hraw, -⟩ := h _ (List.mem_append_left _ List.mem_cons_self)
          exact absurd ⟨(key, value), hraw⟩ hpair
        · exact fun key value hraw => hpair ⟨(key, value), hraw⟩
    · rintro ⟨entries, hmap, hbefore, hnodup, hentries⟩
      cases entries with
      | nil => cases hmap
      | cons entry entries =>
        obtain ⟨rfl, rfl⟩ := List.cons.inj hmap
        obtain ⟨hkey, hkeys⟩ := List.nodup_cons.mp hnodup
        refine forall_entryNodes_cons_isSound.mpr
          ⟨hbefore _ List.mem_cons_self, hentries _ List.mem_cons_self, ih.mpr ?_⟩
        refine ⟨entries, rfl, ?_, hkeys, fun e he => hentries e (List.mem_cons_of_mem _ he)⟩
        intro k hk hmem
        rcases List.mem_append.mp hmem with hmem | hmem
        · exact hbefore k (List.mem_cons_of_mem _ hk) hmem
        · obtain rfl := List.mem_singleton.mp hmem
          exact hkey hk

/-- Scalars stand under tags, and not under that of dictionaries. -/
theorem IsScalar.tag_mem {tag : Text} {raw : Json Double} (h : IsScalar tag raw) :
    tag ∈ tags ∧ tag ≠ "dictionary" := by
  cases h <;> subst_vars <;> exact ⟨by decide, by decide⟩

/-- The nodes of an object with one key are sound when the key is a tag and those under it are. -/
theorem forall_nodes_tagged_isSound {tag : Text} {raw : Json Double} :
    (∀ n ∈ nodes (tagged tag raw), n.IsSound) ↔
      tag ∈ tags ∧ ∀ n ∈ payloadNodes tag raw, n.IsSound := by
  by_cases htag : tag ∈ tags
  · rw [nodes_tagged htag, List.forall_mem_cons, forall_within_isSound]
    simp [isSound_tagged htag raw, htag]
  · have hbad : ¬(⟨[], .tree, tagged tag raw⟩ : Node).IsSound := by
      rintro ⟨_, _, hmembers, hmem⟩
      cases hmembers
      exact htag hmem
    rw [tagged, nodes, List.forall_mem_cons]
    simp only [htag, false_and, iff_false, not_and]
    exact fun h => absurd h hbad

/-- Under the tag of dictionaries all nodes are sound when there are pairs of distinct keys over values
all of whose nodes are sound. -/
theorem forall_payloadNodes_dictionary_isSound {raw : Json Double} :
    (∀ n ∈ payloadNodes "dictionary" raw, n.IsSound) ↔
      ∃ entries : List (Text × Json Double), raw = .array (entries.map pair) ∧
        (Entries.keys entries).Nodup ∧ ∀ entry ∈ entries, ∀ n ∈ nodes entry.2, n.IsSound := by
  constructor
  · intro h
    have hhead : ∃ pairs, raw = .array pairs := by
      have hmem : ⟨[], .payload "dictionary", raw⟩ ∈ payloadNodes "dictionary" raw := by
        cases raw <;> simp [payloadNodes]
      rcases h _ hmem with hscalar | ⟨-, hpairs⟩
      · exact absurd hscalar not_isScalar_dictionary
      · exact hpairs
    obtain ⟨pairs, rfl⟩ := hhead
    rw [payloadNodes, if_pos rfl, List.forall_mem_cons, forall_entryNodes_isSound] at h
    obtain ⟨-, entries, rfl, -, hnodup, hentries⟩ := h
    exact ⟨entries, rfl, hnodup, hentries⟩
  · rintro ⟨entries, rfl, hnodup, hentries⟩
    rw [payloadNodes, if_pos rfl, List.forall_mem_cons, forall_entryNodes_isSound]
    exact ⟨.inr ⟨rfl, _, rfl⟩, entries, rfl, by simp, hnodup, hentries⟩

/-- A value is a wire form when all its nodes are sound. -/
theorem forall_isSound_iff (raw : Json Double) :
    (∀ n ∈ nodes raw, n.IsSound) ↔ IsWireForm raw := by
  constructor
  · induction raw using wire_induction with
    | h raw hitems hentries =>
      intro h
      cases raw with
      | null => exact .null
      | bool b => exact .bool b
      | string t => exact .string t
      | number x => exact absurd (h _ List.mem_cons_self) id
      | array items =>
        rw [nodes, List.forall_mem_cons, forall_itemNodes_isSound] at h
        exact .array fun item hitem => hitems items rfl item hitem (h.2 item hitem)
      | object members =>
        obtain ⟨tag, raw, rfl, htag⟩ : ∃ tag raw, members = [(tag, raw)] ∧ tag ∈ tags := by
          have hmem : ⟨[], .tree, .object members⟩ ∈ nodes (.object members) := by
            match members with
            | [(tag, raw)] => simp [nodes]
            | [] => simp [nodes]
            | _ :: _ :: _ => simp [nodes]
          exact h _ hmem
        have hpayload := (forall_nodes_tagged_isSound.mp h).2
        by_cases hdictionary : tag = "dictionary"
        · subst hdictionary
          obtain ⟨entries, rfl, hnodup, hsound⟩ := forall_payloadNodes_dictionary_isSound.mp hpayload
          refine .dictionary hnodup fun entry hentry => ?_
          exact hentries _ rfl entry (List.mem_map_of_mem hentry) (hsound entry hentry)
        · rw [payloadNodes_of_ne hdictionary] at hpayload
          have hscalar := hpayload _ List.mem_cons_self
          rw [isSound_payload_iff hdictionary] at hscalar
          exact .scalar hscalar
  · intro h
    induction h with
    | null => simp [nodes, Node.IsSound]
    | bool b => simp [nodes, Node.IsSound]
    | string t => simp [nodes, Node.IsSound]
    | array _ ih =>
      rw [nodes, List.forall_mem_cons, forall_itemNodes_isSound]
      exact ⟨trivial, ih⟩
    | @scalar tag raw hscalar =>
      obtain ⟨htag, hne⟩ := hscalar.tag_mem
      refine forall_nodes_tagged_isSound.mpr ⟨htag, ?_⟩
      rw [payloadNodes_of_ne hne]
      simpa [isSound_payload_iff hne] using hscalar
    | @dictionary entries hkeys _ ih =>
      refine forall_nodes_tagged_isSound.mpr ⟨by decide, ?_⟩
      exact forall_payloadNodes_dictionary_isSound.mpr ⟨entries, rfl, hkeys, ih⟩

end Wire

end SwiftLens
